import MemStack.Agent.Hitl.RequestStore

/-!
This module contains which runs of the updates of a request fence the workers that claim it.
-/

namespace MemStack
namespace Agent
namespace Hitl
namespace RequestStore

variable {F : Type} {lib : RequestLibrary F} {s : RequestStore F} {worker worker' : WorkerId}

def LeaseEvent.isClaim : LeaseEvent → Bool
  | .claimed _ => true
  | _ => false

def claimant (log : List LeaseEvent) : Option WorkerId :=
  match log.getLast? with
  | some (.claimed worker) => some worker
  | _ => none

def Holds (log : List LeaseEvent) (worker : WorkerId) : Prop :=
  ∃ before after, log = before ++ .claimed worker :: after ∧ ∀ event ∈ after, LeaseEvent.isClaim event = true

def attempts (s : RequestStore F) : StoreRequest F → Option WorkerId
  | .update (.markCompleted worker) => some worker
  | .update (.revertProcessing worker) => some worker
  | .readForRefresh worker _ => some worker
  | .writeRefresh n => s.refreshing[n]?.map Prod.fst
  | _ => none

abbrev Entry (F : Type) := Machine.Entry (RequestStore F) (StoreRequest F) StoreReply

structure Entry.Fenced (e : Entry F) : Prop where
  final : e.before.row.status.isFinal = true →
    e.after.row.status = e.before.row.status ∧ e.after.row.response = e.before.row.response
  single : ∀ worker worker', Holds e.after.log worker → Holds e.after.log worker' → worker = worker'
  stale : ∀ worker worker', e.before.attempts e.request = some worker → .claimed worker ∈ e.before.log →
    claimant e.before.log = some worker' → worker' ≠ worker → e.reply ≠ .matched true
  current : ∀ worker, e.before.attempts e.request = some worker → claimant e.before.log = some worker →
    e.before.lock = none → e.reply = .matched true

def Timely (s : RequestStore F) (request : StoreRequest F) : Prop :=
  ∀ n, request = .writeRefresh n → s.lock = none →
    ∀ refresh ∈ s.refreshing[n]?, ∀ worker, claimant s.log = some worker → worker = refresh.1

def ownerIs (metadata : Option (Metadata F)) (worker : WorkerId) : Prop :=
  (metadata.getD .empty).get "processing_owner" = some (.str worker.id)

inductive Locked (lib : RequestLibrary F) (s : RequestStore F) : Transaction F → Prop where
  | first (update : Update F) (hcondition : update.condition lib s.row = true)
    : Locked lib s ⟨update.assign s.row, update.next, update.event⟩
  | second (update : Update F) (next : LeaseUpdate) (hcondition : update.condition lib s.row = true)
      (hnext : update.next = some next)
    : Locked lib s ⟨next.apply lib (update.assign s.row), none, update.event⟩
  | refresh (metadata : Metadata F) (howner : ∀ worker, claimant s.log = some worker → ownerIs (some metadata) worker)
    : Locked lib s ⟨{ s.row with responseMetadata := some metadata }, none, none⟩

structure Inv (lib : RequestLibrary F) (s : RequestStore F) : Prop where
  processing : s.row.status = .processing ↔ (claimant s.log).isSome
  owner : ∀ worker, claimant s.log = some worker → ownerIs s.row.responseMetadata worker
  alternating : s.log.IsChain fun a b => LeaseEvent.isClaim a = true → LeaseEvent.isClaim b = false
  lock : ∀ t, s.lock = some t → Locked lib s t
  refreshing : ∀ refresh ∈ s.refreshing, .claimed refresh.1 ∈ s.log ∧ ownerIs (some refresh.2) refresh.1

theorem claimant_concat (log : List LeaseEvent) (event : LeaseEvent)
    : claimant (log ++ [event]) = match event with
        | .claimed worker => some worker
        | _ => none := by
  unfold claimant
  rw [List.getLast?_concat]
  cases event <;> rfl

theorem isClaim_of_claimant {log : List LeaseEvent} (h : claimant log = some worker)
    : log.getLast? = some (.claimed worker) := by
  unfold claimant at h
  cases hlast : log.getLast? with
  | none =>
    rw [hlast] at h
    cases h
  | some event =>
    rw [hlast] at h
    cases event with
    | claimed other =>
      cases h
      rfl
    | reverted => cases h
    | completed => cases h

theorem claimed_mem_of_claimant {log : List LeaseEvent} (h : claimant log = some worker) : .claimed worker ∈ log :=
  List.mem_of_getLast? (isClaim_of_claimant h)

theorem claimant_of_holds {log : List LeaseEvent}
    (halternating : log.IsChain fun a b => LeaseEvent.isClaim a = true → LeaseEvent.isClaim b = false)
    (h : Holds log worker)
    : claimant log = some worker := by
  rcases h with ⟨before, after, rfl, hafter⟩
  cases after with
  | nil =>
    rw [claimant_concat]
  | cons event after =>
    have hpair := (List.isChain_append.mp halternating).2.1
    rw [List.isChain_cons_cons] at hpair
    have hclaim := hafter event List.mem_cons_self
    rw [hpair.1 rfl] at hclaim
    cases hclaim

theorem single_of_alternating {log : List LeaseEvent}
    (halternating : log.IsChain fun a b => LeaseEvent.isClaim a = true → LeaseEvent.isClaim b = false)
    (h : Holds log worker) (h' : Holds log worker')
    : worker = worker' := by
  have hworker := claimant_of_holds halternating h
  rw [claimant_of_holds halternating h'] at hworker
  exact (Option.some.inj hworker).symm

section Metadata

theorem ownerIs_merge (metadata : Option (Metadata F)) (now : Int) (worker : WorkerId)
    : ownerIs (some (mergeProcessingLeaseMetadata lib metadata now (some worker.id))) worker := by
  unfold ownerIs mergeProcessingLeaseMetadata
  dsimp only
  rw [if_neg worker.nonempty, Option.getD_some, Dict.get_set, if_pos rfl]

theorem metadataText_of_ownerIs {metadata : Option (Metadata F)} (h : ownerIs metadata worker)
    : metadataText lib metadata "processing_owner" = some worker.id := by
  unfold metadataText
  rw [h]
  rfl

theorem currentOwner_of_ownerIs {metadata : Option (Metadata F)} (h : ownerIs metadata worker)
    : currentOwner metadata = some worker.id := by
  unfold currentOwner
  rw [h]
  exact if_neg worker.nonempty

theorem id_injective (h : worker.id = worker'.id) : worker = worker' := by
  cases worker
  cases worker'
  cases h
  rfl

end Metadata

theorem not_final_of_condition {row : HITLRequestRecord F} {update : Update F} (h : update.condition lib row = true)
    : row.status.isFinal = false := by
  cases hstatus : row.status with
  | pending => rfl
  | answered => rfl
  | processing => rfl
  | completed => cases update <;> simp [Update.condition, Update.revertible, hstatus] at h
  | timeout => cases update <;> simp [Update.condition, Update.revertible, hstatus] at h
  | cancelled => cases update <;> simp [Update.condition, Update.revertible, hstatus] at h

theorem plain_update {row : HITLRequestRecord F} {update : Update F} (h : update.condition lib row = true)
    (hnext : update.next = none)
    : row.status ≠ .processing ∧ (update.assign row).status ≠ .processing ∧ update.event = none := by
  cases update with
  | updateResponse response metadata now =>
    simp [Update.condition] at h
    simp [Update.assign, Update.event, h.1]
  | claimResponseV2 response metadata expectedRevision idempotencyKey payloadDigest now =>
    simp [Update.condition] at h
    simp [Update.assign, Update.event, h.1]
  | reopenPending =>
    simp [Update.condition] at h
    simp [Update.assign, Update.event, h]
  | markTimeout defaultResponse =>
    simp [Update.condition] at h
    simp [Update.assign, Update.event, h]
  | markCancelled =>
    simp [Update.condition] at h
    simp [Update.assign, Update.event, h]
  | markCompleted worker => cases hnext
  | claimForProcessing worker now => cases hnext
  | revertProcessing worker => cases hnext
  | recoverStale leaseBefore leaseOwner => cases hnext

theorem apply_status (next : LeaseUpdate) (row : HITLRequestRecord F) : (next.apply lib row).status = row.status := by
  cases next <;> rfl

theorem processing_of_revertible {row : HITLRequestRecord F} {leaseBefore : Option Int} {leaseOwner : Option String}
    (h : Update.revertible lib row leaseBefore leaseOwner = true)
    : row.status = .processing := by
  unfold Update.revertible at h
  simp only [Bool.and_eq_true, decide_eq_true_eq] at h
  exact h.1.1

theorem lease_update {row : HITLRequestRecord F} {update : Update F} {next : LeaseUpdate}
    (h : update.condition lib row = true) (hnext : update.next = some next)
    : (∃ worker now, update = .claimForProcessing worker now ∧ next = .merge now worker ∧ row.status = .answered) ∨
        (row.status = .processing ∧ (update.assign row).status ≠ .processing ∧
          ∃ event, update.event = some event ∧ LeaseEvent.isClaim event = false) := by
  cases update with
  | updateResponse response metadata now => cases hnext
  | claimResponseV2 response metadata expectedRevision idempotencyKey payloadDigest now => cases hnext
  | reopenPending => cases hnext
  | markTimeout defaultResponse => cases hnext
  | markCancelled => cases hnext
  | markCompleted worker =>
    simp [Update.condition] at h
    exact Or.inr ⟨h.1, by simp [Update.assign], _, rfl, rfl⟩
  | claimForProcessing worker now =>
    simp [Update.condition] at h
    cases hnext
    exact Or.inl ⟨worker, now, rfl, rfl, h⟩
  | revertProcessing worker =>
    have hprocessing := @processing_of_revertible F lib row none (some worker.id) h
    exact Or.inr ⟨hprocessing, by simp [Update.assign], _, rfl, rfl⟩
  | recoverStale leaseBefore leaseOwner =>
    have hprocessing := @processing_of_revertible F lib row (some leaseBefore) leaseOwner h
    exact Or.inr ⟨hprocessing, by simp [Update.assign], _, rfl, rfl⟩

theorem alternating_concat {log : List LeaseEvent} {event : LeaseEvent}
    (h : log.IsChain fun a b => LeaseEvent.isClaim a = true → LeaseEvent.isClaim b = false)
    (hevent : LeaseEvent.isClaim event = true → claimant log = none)
    : (log ++ [event]).IsChain fun a b => LeaseEvent.isClaim a = true → LeaseEvent.isClaim b = false := by
  rw [List.isChain_append]
  refine ⟨h, List.isChain_singleton event, ?_⟩
  intro last hlast event' hevent' hclaim
  cases hevent'
  cases last with
  | claimed worker =>
    cases hcase : LeaseEvent.isClaim event with
    | false => rfl
    | true =>
      have hnone := hevent hcase
      unfold claimant at hnone
      rw [Option.mem_def.mp hlast] at hnone
      cases hnone
  | reverted => cases hclaim
  | completed => cases hclaim

theorem claimant_concat_of_not_claim {log : List LeaseEvent} {event : LeaseEvent} (h : LeaseEvent.isClaim event = false)
    : claimant (log ++ [event]) = none := by
  rw [claimant_concat]
  cases event with
  | claimed worker => cases h
  | reverted => rfl
  | completed => rfl

theorem claimant_of_not_processing (h : Inv lib s) (hstatus : s.row.status ≠ .processing) : claimant s.log = none := by
  cases hclaimant : claimant s.log with
  | none => rfl
  | some worker =>
    exfalso
    apply hstatus
    rw [h.processing, hclaimant]
    rfl

theorem commit_inv (h : Inv lib s) {row : HITLRequestRecord F} {event : Option LeaseEvent}
    (hlocked : Locked lib s ⟨row, none, event⟩)
    : Inv lib { s with row, lock := none, log := s.log ++ event.toList } := by
  have hlock : ∀ t, (none : Option (Transaction F)) = some t →
      Locked lib { s with row, lock := none, log := s.log ++ event.toList } t := by
    intro t ht
    cases ht
  have hrefreshing : ∀ refresh ∈ s.refreshing,
      .claimed refresh.1 ∈ s.log ++ event.toList ∧ ownerIs (some refresh.2) refresh.1 := by
    intro refresh hmem
    exact ⟨List.mem_append_left _ (h.refreshing refresh hmem).1, (h.refreshing refresh hmem).2⟩
  generalize ht : (⟨row, none, event⟩ : Transaction F) = t at hlocked
  cases hlocked with
  | first update hcondition =>
    simp only [Transaction.mk.injEq] at ht
    rcases ht with ⟨rfl, hnext, rfl⟩
    have hplain := plain_update hcondition hnext.symm
    have hnone := claimant_of_not_processing h hplain.1
    refine ⟨?_, ?_, ?_, hlock, hrefreshing⟩
    . rw [hplain.2.2, Option.toList_none, List.append_nil, hnone]
      simp [hplain.2.1]
    . intro worker hworker
      rw [hplain.2.2, Option.toList_none, List.append_nil, hnone] at hworker
      cases hworker
    . rw [hplain.2.2, Option.toList_none, List.append_nil]
      exact h.alternating
  | second update next hcondition hnext =>
    simp only [Transaction.mk.injEq] at ht
    rcases ht with ⟨rfl, _, rfl⟩
    rcases lease_update hcondition hnext with ⟨worker, now, rfl, rfl, hanswered⟩ |
      ⟨hprocessing, hstatus, event, hevent, hends⟩
    . have hnone := claimant_of_not_processing h (by rw [hanswered]; decide)
      have hclaimant : claimant (s.log ++ [.claimed worker]) = some worker := claimant_concat s.log (.claimed worker)
      refine ⟨?_, ?_, ?_, hlock, hrefreshing⟩
      . show HITLRequestStatus.processing = .processing ↔ (claimant (s.log ++ [.claimed worker])).isSome
        rw [hclaimant]
        simp
      . intro other hother
        have hother : claimant (s.log ++ [.claimed worker]) = some other := hother
        rw [hclaimant] at hother
        cases hother
        exact ownerIs_merge _ now worker
      . exact alternating_concat h.alternating (fun _ => hnone)
    . have hclaimant : claimant (s.log ++ [event]) = none := claimant_concat_of_not_claim hends
      refine ⟨?_, ?_, ?_, hlock, hrefreshing⟩
      . rw [hevent, apply_status, Option.toList_some, hclaimant]
        simp [hstatus]
      . intro worker hworker
        rw [hevent, Option.toList_some, hclaimant] at hworker
        cases hworker
      . rw [hevent, Option.toList_some]
        apply alternating_concat h.alternating
        intro hclaim
        rw [hends] at hclaim
        cases hclaim
  | refresh metadata howner =>
    simp only [Transaction.mk.injEq, true_and] at ht
    rcases ht with ⟨rfl, rfl⟩
    refine ⟨?_, ?_, ?_, hlock, hrefreshing⟩
    . rw [Option.toList_none, List.append_nil]
      exact h.processing
    . intro worker hworker
      rw [Option.toList_none, List.append_nil] at hworker
      exact howner worker hworker
    . rw [Option.toList_none, List.append_nil]
      exact h.alternating

theorem commit_final {row : HITLRequestRecord F} {event : Option LeaseEvent} (h : Locked lib s ⟨row, none, event⟩)
    (hfinal : s.row.status.isFinal = true)
    : row.status = s.row.status ∧ row.response = s.row.response := by
  generalize ht : (⟨row, none, event⟩ : Transaction F) = t at h
  cases h with
  | first update hcondition =>
    rw [not_final_of_condition hcondition] at hfinal
    cases hfinal
  | second update next hcondition hnext =>
    rw [not_final_of_condition hcondition] at hfinal
    cases hfinal
  | refresh metadata howner =>
    simp only [Transaction.mk.injEq, true_and] at ht
    rcases ht with ⟨rfl, rfl⟩
    exact ⟨rfl, rfl⟩

abbrev entry (lib : RequestLibrary F) (s : RequestStore F) (request : StoreRequest F) : Entry F :=
  Machine.entry (step lib) s request

section Steps

variable {request : StoreRequest F}

theorem update_eq_of_free {update : Update F} (hrefusal : update.refusal = none) (hfree : s.lock = none)
    : s.update lib update
        = if update.condition lib s.row then
            ({ s with lock := some ⟨update.assign s.row, update.next, update.event⟩ }, .matched true)
          else (s, .matched false) := by
  unfold RequestStore.update
  rw [hrefusal, hfree]

theorem step_committed (request : StoreRequest F) (hcommit : request ≠ .commit)
    : (step lib s request).1.row = s.row ∧ (step lib s request).1.log = s.log := by
  cases request with
  | update update =>
    show (s.update lib update).1.row = s.row ∧ (s.update lib update).1.log = s.log
    unfold RequestStore.update
    split
    . exact ⟨rfl, rfl⟩
    . split
      . exact ⟨rfl, rfl⟩
      . split <;> exact ⟨rfl, rfl⟩
  | updateLease =>
    show (s.updateLease lib).1.row = s.row ∧ (s.updateLease lib).1.log = s.log
    unfold updateLease
    split <;> exact ⟨rfl, rfl⟩
  | readForRefresh worker now =>
    show (s.readForRefresh lib worker now).1.row = s.row ∧ (s.readForRefresh lib worker now).1.log = s.log
    unfold readForRefresh
    split
    . exact ⟨rfl, rfl⟩
    . split
      . exact ⟨rfl, rfl⟩
      . split <;> exact ⟨rfl, rfl⟩
  | writeRefresh n =>
    show (s.writeRefresh n).1.row = s.row ∧ (s.writeRefresh n).1.log = s.log
    unfold writeRefresh
    split
    . exact ⟨rfl, rfl⟩
    . split <;> exact ⟨rfl, rfl⟩
  | commit => exact absurd rfl hcommit
  | rollback => exact ⟨rfl, rfl⟩

theorem commit_cases (s : RequestStore F)
    : (∃ row event, s.lock = some ⟨row, none, event⟩ ∧
          s.commit.1 = { s with row, lock := none, log := s.log ++ event.toList }) ∨
        s.commit.1 = s := by
  unfold commit
  split
  . next row event hlock => exact Or.inl ⟨row, event, hlock, rfl⟩
  . exact Or.inr rfl

theorem step_final (h : Inv lib s) (request : StoreRequest F) (hfinal : s.row.status.isFinal = true)
    : (step lib s request).1.row.status = s.row.status ∧ (step lib s request).1.row.response = s.row.response := by
  by_cases hcommit : request = .commit
  . rw [hcommit]
    show s.commit.1.row.status = s.row.status ∧ s.commit.1.row.response = s.row.response
    rcases commit_cases s with ⟨row, event, hlock, heq⟩ | heq
    . rw [heq]
      exact commit_final (h.lock _ hlock) hfinal
    . rw [heq]
      exact ⟨rfl, rfl⟩
  . rw [(step_committed request hcommit).1]
    exact ⟨rfl, rfl⟩

theorem inv_of_locked (h : Inv lib s) (lock : Option (Transaction F))
    (hlocked : ∀ t, lock = some t → Locked lib s t)
    : Inv lib { s with lock } where
  processing := h.processing
  owner := h.owner
  alternating := h.alternating
  lock := by
    intro t ht
    cases hlocked t ht with
    | first update hcondition => exact Locked.first update hcondition
    | second update next hcondition hnext => exact Locked.second update next hcondition hnext
    | refresh metadata howner => exact Locked.refresh metadata howner
  refreshing := h.refreshing

theorem update_inv (h : Inv lib s) (update : Update F) : Inv lib (s.update lib update).1 := by
  cases hrefusal : update.refusal with
  | some reply =>
    unfold RequestStore.update
    rw [hrefusal]
    exact h
  | none =>
    cases hfree : s.lock with
    | some t =>
      unfold RequestStore.update
      rw [hrefusal, hfree]
      exact h
    | none =>
      rw [update_eq_of_free hrefusal hfree]
      split
      . next hcondition =>
        apply inv_of_locked h
        intro t ht
        cases ht
        exact Locked.first update hcondition
      . exact h

theorem updateLease_inv (h : Inv lib s) : Inv lib (s.updateLease lib).1 := by
  unfold updateLease
  split
  . next row next event hlock =>
    apply inv_of_locked h
    intro t ht
    cases ht
    have hlocked := h.lock _ hlock
    generalize ht : (⟨row, some next, event⟩ : Transaction F) = t at hlocked
    cases hlocked with
    | first update hcondition =>
      simp only [Transaction.mk.injEq] at ht
      rcases ht with ⟨rfl, hnext, rfl⟩
      exact Locked.second update next hcondition hnext.symm
    | second update next' hcondition hnext => simp at ht
    | refresh metadata howner => simp at ht
  . exact h

theorem reads_inv (h : Inv lib s) (now : Int) (hclaimed : .claimed worker ∈ s.log)
    : Inv lib (readForRefresh.reads lib s worker now).1 where
  processing := h.processing
  owner := h.owner
  alternating := h.alternating
  lock := by
    intro t ht
    cases h.lock t ht with
    | first update hcondition => exact Locked.first update hcondition
    | second update next hcondition hnext => exact Locked.second update next hcondition hnext
    | refresh metadata howner => exact Locked.refresh metadata howner
  refreshing := by
    intro refresh hmem
    rcases List.mem_append.mp hmem with hmem | hmem
    . exact h.refreshing refresh hmem
    . rw [List.mem_singleton] at hmem
      rw [hmem]
      exact ⟨hclaimed, ownerIs_merge _ now worker⟩

theorem readForRefresh_cases (h : Inv lib s) (worker : WorkerId) (now : Int)
    : (claimant s.log = some worker ∧ s.readForRefresh lib worker now = readForRefresh.reads lib s worker now) ∨
        (claimant s.log ≠ some worker ∧ s.readForRefresh lib worker now = (s, .matched false)) := by
  cases hclaimant : claimant s.log with
  | none =>
    right
    refine ⟨by simp, ?_⟩
    unfold readForRefresh
    rw [if_pos]
    rw [ne_eq, h.processing, hclaimant]
    simp
  | some owner =>
    have hprocessing : s.row.status = .processing := by
      rw [h.processing, hclaimant]
      rfl
    have howner := currentOwner_of_ownerIs (h.owner owner hclaimant)
    by_cases hsame : owner = worker
    . left
      refine ⟨by rw [hsame], ?_⟩
      unfold readForRefresh
      rw [if_neg (by simp [hprocessing]), howner]
      dsimp only
      rw [if_pos (by rw [hsame])]
    . right
      refine ⟨by simpa using hsame, ?_⟩
      unfold readForRefresh
      rw [if_neg (by simp [hprocessing]), howner]
      dsimp only
      rw [if_neg (fun hid => hsame (id_injective hid))]

theorem readForRefresh_inv (h : Inv lib s) (worker : WorkerId) (now : Int)
    : Inv lib (s.readForRefresh lib worker now).1 := by
  rcases readForRefresh_cases h worker now with ⟨hclaimant, heq⟩ | ⟨_, heq⟩
  . rw [heq]
    exact reads_inv h now (claimed_mem_of_claimant hclaimant)
  . rw [heq]
    exact h

theorem writeRefresh_inv (h : Inv lib s) (n : Nat) (htimely : Timely s (.writeRefresh n))
    : Inv lib (s.writeRefresh n).1 := by
  unfold writeRefresh
  cases hrefresh : s.refreshing[n]? with
  | none => exact h
  | some refresh =>
    cases hlock : s.lock with
    | some t => exact h
    | none =>
      dsimp only
      have hmem := List.mem_of_getElem? hrefresh
      have howner : ∀ worker, claimant s.log = some worker → ownerIs (some refresh.2) worker := by
        intro worker hworker
        rw [htimely n rfl hlock refresh hrefresh worker hworker]
        exact (h.refreshing refresh hmem).2
      have hlocked := inv_of_locked h (some ⟨{ s.row with responseMetadata := some refresh.2 }, none, none⟩) (by
        intro t ht
        cases ht
        exact Locked.refresh refresh.2 howner)
      refine ⟨hlocked.processing, hlocked.owner, hlocked.alternating, ?_, ?_⟩
      . intro t ht
        cases hlocked.lock t ht with
        | first update hcondition => exact Locked.first update hcondition
        | second update next hcondition hnext => exact Locked.second update next hcondition hnext
        | refresh metadata howner => exact Locked.refresh metadata howner
      . intro other hother
        exact h.refreshing other (List.mem_of_mem_eraseIdx hother)

theorem step_inv (h : Inv lib s) (request : StoreRequest F) (htimely : Timely s request)
    : Inv lib (step lib s request).1 := by
  cases request with
  | update update => exact update_inv h update
  | updateLease => exact updateLease_inv h
  | readForRefresh worker now => exact readForRefresh_inv h worker now
  | writeRefresh n => exact writeRefresh_inv h n htimely
  | commit =>
    show Inv lib s.commit.1
    rcases commit_cases s with ⟨row, event, hlock, heq⟩ | heq
    . rw [heq]
      exact commit_inv h (h.lock _ hlock)
    . rw [heq]
      exact h
  | rollback =>
    apply inv_of_locked h
    intro t ht
    cases ht

theorem completion_iff (h : Inv lib s) (hclaimant : claimant s.log = some worker')
    : (Update.markCompleted worker).condition lib s.row = true ↔ worker' = worker := by
  have hprocessing : s.row.status = .processing := by
    rw [h.processing, hclaimant]
    rfl
  simp only [Update.condition, hprocessing, metadataText_of_ownerIs (h.owner worker' hclaimant), Bool.and_eq_true,
    decide_eq_true_eq, true_and, Option.some.injEq]
  constructor
  . apply id_injective
  . intro heq
    rw [heq]

theorem reversion_iff (h : Inv lib s) (hclaimant : claimant s.log = some worker')
    : (Update.revertProcessing worker).condition lib s.row = true ↔ worker' = worker := by
  have hprocessing : s.row.status = .processing := by
    rw [h.processing, hclaimant]
    rfl
  simp only [Update.condition, Update.revertible, hprocessing, metadataText_of_ownerIs (h.owner worker' hclaimant),
    Bool.and_eq_true, decide_eq_true_eq, true_and, and_true]
  constructor
  . apply id_injective
  . intro heq
    rw [heq]

theorem update_reply {update : Update F} (hrefusal : update.refusal = none)
    : (s.update lib update).2 = .matched true ↔ s.lock = none ∧ update.condition lib s.row = true := by
  cases hfree : s.lock with
  | some t =>
    unfold RequestStore.update
    rw [hrefusal, hfree]
    simp
  | none =>
    rw [update_eq_of_free hrefusal hfree]
    split
    . next hcondition => simp [hcondition]
    . next hcondition => simp [hcondition]

theorem attempt_spec (h : Inv lib s) (request : StoreRequest F) (hattempts : s.attempts request = some worker)
    (hclaimant : claimant s.log = some worker') (hwrite : ∀ n, request ≠ .writeRefresh n)
    : ((step lib s request).2 = .matched true → worker' = worker) ∧
        (s.lock = none → worker' = worker → (step lib s request).2 = .matched true) := by
  cases request with
  | update update =>
    cases update with
    | markCompleted w =>
      cases hattempts
      show ((s.update lib (.markCompleted worker)).2 = .matched true → _) ∧
        (_ → _ → (s.update lib (.markCompleted worker)).2 = .matched true)
      rw [update_reply rfl, completion_iff h hclaimant]
      exact ⟨And.right, And.intro⟩
    | revertProcessing w =>
      cases hattempts
      show ((s.update lib (.revertProcessing worker)).2 = .matched true → _) ∧
        (_ → _ → (s.update lib (.revertProcessing worker)).2 = .matched true)
      rw [update_reply rfl, reversion_iff h hclaimant]
      exact ⟨And.right, And.intro⟩
    | updateResponse response metadata now => cases hattempts
    | claimResponseV2 response metadata expectedRevision idempotencyKey payloadDigest now => cases hattempts
    | reopenPending => cases hattempts
    | markTimeout defaultResponse => cases hattempts
    | markCancelled => cases hattempts
    | claimForProcessing w now => cases hattempts
    | recoverStale leaseBefore leaseOwner => cases hattempts
  | updateLease => cases hattempts
  | readForRefresh w now =>
    cases hattempts
    show ((s.readForRefresh lib worker now).2 = .matched true → _) ∧
      (_ → _ → (s.readForRefresh lib worker now).2 = .matched true)
    rcases readForRefresh_cases h worker now with ⟨hmine, heq⟩ | ⟨hother, heq⟩
    . rw [heq]
      rw [hclaimant] at hmine
      cases hmine
      exact ⟨fun _ => rfl, fun _ _ => rfl⟩
    . rw [heq]
      rw [hclaimant] at hother
      constructor
      . intro hreply
        cases hreply
      . intro _ hsame
        exact absurd (by rw [hsame]) hother
  | writeRefresh n => exact absurd rfl (hwrite n)
  | commit => cases hattempts
  | rollback => cases hattempts

theorem writeRefresh_of_free {n : Nat} {refresh : WorkerId × Metadata F} (hrefresh : s.refreshing[n]? = some refresh)
    (hfree : s.lock = none)
    : (s.writeRefresh n).2 = .matched true := by
  unfold writeRefresh
  rw [hrefresh, hfree]

theorem writeRefresh_matched {n : Nat} (h : (s.writeRefresh n).2 = .matched true) : s.lock = none := by
  unfold writeRefresh at h
  split at h
  . cases h
  . split at h
    . cases h
    . assumption

theorem fenced_of_timely (h : Inv lib s) (request : StoreRequest F) (htimely : Timely s request)
    : Entry.Fenced (entry lib s request) where
  final := step_final h request
  single := by
    intro worker worker' hworker hworker'
    exact single_of_alternating (step_inv h request htimely).alternating hworker hworker'
  stale := by
    intro worker worker' hattempts _ hclaimant hne hreply
    apply hne
    by_cases hwrite : ∀ n, request ≠ .writeRefresh n
    . exact (attempt_spec h request hattempts hclaimant hwrite).1 hreply
    . push Not at hwrite
      rcases hwrite with ⟨n, rfl⟩
      rcases Option.map_eq_some_iff.mp hattempts with ⟨refresh, hrefresh, rfl⟩
      exact htimely n rfl (writeRefresh_matched hreply) refresh hrefresh worker' hclaimant
  current := by
    intro worker hattempts hclaimant hfree
    by_cases hwrite : ∀ n, request ≠ .writeRefresh n
    . exact (attempt_spec h request hattempts hclaimant hwrite).2 hfree rfl
    . push Not at hwrite
      rcases hwrite with ⟨n, rfl⟩
      rcases Option.map_eq_some_iff.mp hattempts with ⟨refresh, hrefresh, rfl⟩
      exact writeRefresh_of_free hrefresh hfree

theorem timely_of_fenced (h : Inv lib s) (request : StoreRequest F) (hfenced : Entry.Fenced (entry lib s request))
    : Timely s request := by
  intro n hrequest hfree refresh hrefresh worker hclaimant
  subst hrequest
  by_contra hne
  have hattempts : s.attempts (.writeRefresh n) = some refresh.1 := by
    show s.refreshing[n]?.map Prod.fst = some refresh.1
    rw [Option.mem_def.mp hrefresh]
    rfl
  have hclaimed := (h.refreshing refresh (List.mem_of_getElem? hrefresh)).1
  exact hfenced.stale refresh.1 worker hattempts hclaimed hclaimant hne (writeRefresh_of_free hrefresh hfree)

theorem created_inv (lib : RequestLibrary F) (expiresAt : Option Int) : Inv lib (created expiresAt) where
  processing := by simp [created, claimant]
  owner := by
    intro worker hworker
    cases hworker
  alternating := List.isChain_nil
  lock := by
    intro t ht
    cases ht
  refreshing := by
    intro refresh hmem
    cases hmem

/--
The workers are fenced just in those runs where each refresh is written before its claim goes to another
worker.
-/
theorem fenced_run_iff (lib : RequestLibrary F) (expiresAt : Option Int) (requests : List (StoreRequest F))
    : (∀ e ∈ Machine.transcript (step lib) (created expiresAt) requests, Entry.Fenced e) ↔
        ∀ e ∈ Machine.transcript (step lib) (created expiresAt) requests, Timely e.before e.request := by
  apply @Machine.forall_transcript_iff _ _ _ (step lib) Timely (Inv lib) Entry.Fenced
  . intro s request h
    exact ⟨⟨timely_of_fenced h request, fenced_of_timely h request⟩, step_inv h request⟩
  . exact created_inv lib expiresAt

/--
One worker reads for a refresh, its claim is recovered and claimed by another worker, and then the refresh
is written. The other worker can no longer complete the request.
-/
theorem late_refresh_steals
    : ∃ (lib : RequestLibrary Unit) (requests : List (StoreRequest Unit)),
        ¬∀ e ∈ Machine.transcript (step lib) (created none) requests, Entry.Fenced e := by
  refine ⟨{ isoformat := toString, jsonText := fun _ => "", textBefore := fun a b => a < b }, [
    .update (.updateResponse "yes" none 1), .commit,
    .update (.claimForProcessing ⟨"local-resume-1", by decide⟩ 2), .updateLease, .commit,
    .readForRefresh ⟨"local-resume-1", by decide⟩ 3,
    .update (.recoverStale 5 (some "local-resume-1")), .updateLease, .commit,
    .update (.claimForProcessing ⟨"local-resume-2", by decide⟩ 6), .updateLease, .commit,
    .writeRefresh 0, .commit,
    .update (.markCompleted ⟨"local-resume-2", by decide⟩)], ?_⟩
  intro h
  have hlast := h _ (List.mem_of_getElem? (i := 14) rfl)
  have hcurrent := hlast.current ⟨"local-resume-2", by decide⟩ rfl (by decide +kernel) (by decide +kernel)
  revert hcurrent
  decide +kernel

end Steps

end RequestStore
end Hitl
end Agent
end MemStack
