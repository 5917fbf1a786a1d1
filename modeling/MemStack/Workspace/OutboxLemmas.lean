import MemStack.Workspace.Outbox

/-!
This module contains what a step of the outbox does to its rows, and what keeps the table well formed.
-/

namespace MemStack
namespace Workspace

namespace PlanOutbox

variable {o : PlanOutbox} {id : String} {leaseOwner : Option String}

theorem isHeld_iff
    : o.isHeld id leaseOwner ↔
        o.id = id ∧ o.status = .processing ∧ ∀ owner, leaseOwner = some owner → o.leaseOwner = some owner := by
  unfold isHeld
  cases leaseOwner with
  | none => simp
  | some owner => simp [and_assoc]

theorem status_failure (errorMessage : String) (now : Timestamp)
    : (o.failure errorMessage leaseOwner now).status = .deadLetter ∨
        (o.failure errorMessage leaseOwner now).status = .waiting .failed := by
  unfold failure
  split
  . exact .inl rfl
  . exact .inr rfl

end PlanOutbox

namespace OutboxReply

def claims : OutboxReply → List PlanOutbox
  | .claimed items => items
  | _ => []

end OutboxReply

namespace Outbox

section Rows

def selectsCall : Option Call → PlanOutbox → Bool
  | some (.failing failure) => (·.isHeld failure.id failure.leaseOwner)
  | some (.retrying retry) => (·.id = retry.id)
  | _ => fun _ => false

def setsCall : Option Call → PlanOutbox → PlanOutbox
  | some (.failing failure) => (·.failed failure)
  | some (.retrying retry) => (·.retried retry)
  | _ => fun o => o

def selects (s : Outbox) : OutboxRequest → PlanOutbox → Bool
  | .claimDue limit _ _ lag => fun o => 0 < limit && (s.due limit (s.now lag)).any (·.id = o.id)
  | .markCompleted id leaseOwner _ => (·.isHeld id leaseOwner)
  | .release id _ leaseOwner _ => (·.isHeld id leaseOwner)
  | .park id _ leaseOwner _ => (·.isHeld id leaseOwner)
  | .renew id leaseOwner _ _ => (·.isHeld id (some leaseOwner))
  | .write call => selectsCall s.calls[call]?
  | _ => fun _ => false

def sets (s : Outbox) : OutboxRequest → PlanOutbox → PlanOutbox
  | .claimDue _ leaseOwner leaseSeconds lag => (·.claimed leaseOwner leaseSeconds (s.now lag))
  | .markCompleted _ _ lag => (·.completed (s.now lag))
  | .release _ errorMessage _ lag => (·.released errorMessage (s.now lag))
  | .park _ status _ lag => (·.parked status (s.now lag))
  | .renew _ _ leaseSeconds lag => (·.renewed leaseSeconds (s.now lag))
  | .write call => setsCall s.calls[call]?
  | _ => fun o => o

def added (s : Outbox) : OutboxRequest → List PlanOutbox
  | .enqueue item => if s.items.any (·.id = item.id) then [] else [.ofNew item]
  | _ => []

variable {s : Outbox} {request : OutboxRequest} {o : PlanOutbox}

theorem items_of_same {p : PlanOutbox → Bool} {f : PlanOutbox → PlanOutbox} (hp : ∀ o, ¬ p o)
    : s.items = Table.update p f s.items ++ [] := by
  rw [List.append_nil, Table.update_eq_self]
  intro o _
  apply hp

theorem items_step (s : Outbox) (request : OutboxRequest)
    : (step s request).1.items
        =
      Table.update (s.selects request) (s.sets request) s.items ++ s.added request := by
  cases request with
  | enqueue item =>
    simp only [step, enqueue, selects, added]
    split
    . apply items_of_same
      simp
    . rw [Table.update_eq_self]
      simp
  | claimDue limit leaseOwner leaseSeconds lag =>
    simp only [step, claimDue, selects, sets, added]
    split
    . next hlimit =>
      apply items_of_same
      simp [hlimit]
    . next hlimit =>
      have hpos : (0 < limit) = True := by
        simpa using hlimit
      simp [hpos]
  | markFailed id errorMessage leaseOwner lag =>
    simp only [step, markFailed, added]
    split
    . apply items_of_same
      simp [selects]
    . split
      . apply items_of_same
        simp [selects]
      . split
        . apply items_of_same
          simp [selects]
        . apply items_of_same (s := s)
          simp [selects]
  | retryNow id workspaceId lag =>
    simp only [step, retryNow, added]
    split
    . apply items_of_same
      simp [selects]
    . split
      . apply items_of_same
        simp [selects]
      . split
        . apply items_of_same
          simp [selects]
        . apply items_of_same (s := s)
          simp [selects]
  | write call =>
    simp only [step, write, selects, sets, added, List.append_nil]
    split
    . next hcall =>
      rw [hcall]
      rfl
    . next hcall =>
      rw [hcall]
      rfl
    . next hfailing hretrying =>
      rw [Table.update_eq_self]
      intro o _
      cases hcall : s.calls[call]? with
      | none => exact Bool.false_ne_true
      | some state =>
        cases state with
        | failing failure => exact absurd hcall (hfailing failure)
        | retrying retry => exact absurd hcall (hretrying retry)
        | done => exact Bool.false_ne_true
  | advance time =>
    apply items_of_same (s := s)
    simp [selects]
  | _ =>
    simp only [added, List.append_nil]
    rfl

theorem clock_step (s : Outbox) (request : OutboxRequest)
    : (step s request).1.clock = match request with | .advance time => s.clock + time | _ => s.clock := by
  cases request with
  | advance => rfl
  | enqueue =>
    simp only [step, enqueue]
    split <;> rfl
  | claimDue =>
    simp only [step, claimDue]
    split <;> rfl
  | markFailed =>
    simp only [step, markFailed]
    split
    . rfl
    . split
      . rfl
      . split <;> rfl
  | retryNow =>
    simp only [step, retryNow]
    split
    . rfl
    . split
      . rfl
      . split <;> rfl
  | write call =>
    simp only [step, write]
    split <;> rfl
  | _ => rfl

theorem setsCall_keeps (call : Option Call) (o : PlanOutbox)
    : (setsCall call o).id = o.id ∧ (setsCall call o).maxAttempts = o.maxAttempts := by
  cases call with
  | none => exact ⟨rfl, rfl⟩
  | some call => cases call <;> exact ⟨rfl, rfl⟩

theorem sets_id (request : OutboxRequest) (o : PlanOutbox) : (s.sets request o).id = o.id := by
  cases request with
  | write call => exact (setsCall_keeps _ o).1
  | _ => rfl

theorem sets_maxAttempts (request : OutboxRequest) (o : PlanOutbox)
    : (s.sets request o).maxAttempts = o.maxAttempts := by
  cases request with
  | write call => exact (setsCall_keeps _ o).2
  | _ => rfl

end Rows

section Table

variable {s : Outbox} {request : OutboxRequest} {o : PlanOutbox}

theorem mem_due {limit : Int} {now : Timestamp} (h : o ∈ s.due limit now) : o ∈ s.items ∧ o.isDue now :=
  Table.mem_of_mem_select h

theorem due_iff_any (hnodup : (s.items.map (·.id)).Nodup) (ho : o ∈ s.items) {limit : Int} {now : Timestamp}
    : (s.due limit now).any (·.id = o.id) ↔ o ∈ s.due limit now := by
  rw [List.any_eq_true]
  constructor
  . rintro ⟨other, hother, hid⟩
    have : other = o := by
      apply Table.eq_of_key hnodup (mem_due hother).1 ho
      simpa using hid
    rw [← this]
    exact hother
  . intro h
    exact ⟨o, h, by simp⟩

theorem mem_added (h : o ∈ s.added request)
    : (∃ item, o = .ofNew item) ∧ ∀ old ∈ s.items, old.id ≠ o.id := by
  cases request with
  | enqueue item =>
    unfold added at h
    dsimp only at h
    split at h
    . cases h
    . next hfree =>
      rw [List.mem_singleton] at h
      refine ⟨⟨item, h⟩, ?_⟩
      intro old hold hid
      apply hfree
      rw [List.any_eq_true]
      rw [h] at hid
      refine ⟨old, hold, ?_⟩
      rw [decide_eq_true_eq]
      exact hid
  | _ => cases h

theorem nodup_added : ((s.added request).map (·.id)).Nodup := by
  cases request with
  | enqueue item =>
    unfold added
    dsimp only
    split
    . apply List.nodup_nil
    . apply List.nodup_singleton
  | _ => apply List.nodup_nil

theorem mem_items_step
    : o ∈ (step s request).1.items ↔
        (∃ old ∈ s.items, (if s.selects request old then s.sets request old else old) = o) ∨
          o ∈ s.added request := by
  rw [items_step, List.mem_append, Table.mem_update]

theorem nodup_step (h : (s.items.map (·.id)).Nodup) : ((step s request).1.items.map (·.id)).Nodup := by
  rw [items_step, List.map_append, Table.map_update (sets_id request), List.nodup_append]
  refine ⟨h, nodup_added, ?_⟩
  intro id hid id' hid' heq
  rcases List.mem_map.mp hid with ⟨old, hold, rfl⟩
  rcases List.mem_map.mp hid' with ⟨new, hnew, rfl⟩
  exact (mem_added hnew).2 old hold heq

theorem mem_of_get {id : String} (h : s.get id = some o) : o ∈ s.items ∧ o.id = id :=
  ⟨List.mem_of_find?_eq_some h, by simpa using List.find?_some h⟩

theorem mem_calls_set {call : Nat} {c : Call} (h : c ∈ s.calls.set call .done) : c ∈ s.calls ∨ c = .done :=
  List.mem_or_eq_of_mem_set h

theorem mem_calls_step {c : Call} (h : c ∈ (step s request).1.calls)
    : c ∈ s.calls ∨ c = .done ∨
        (∃ o ∈ s.items, ∃ id errorMessage leaseOwner lag, request = .markFailed id errorMessage leaseOwner lag ∧
          c = .failing (o.failure errorMessage leaseOwner (s.now lag))) ∨
        ∃ o ∈ s.items, ∃ id workspaceId lag, request = .retryNow id workspaceId lag ∧
          c = .retrying (o.retry (s.now lag)) := by
  cases request with
  | enqueue =>
    simp only [step, enqueue] at h
    split at h <;> exact .inl h
  | claimDue =>
    simp only [step, claimDue] at h
    split at h <;> exact .inl h
  | markFailed id errorMessage leaseOwner lag =>
    simp only [step, markFailed] at h
    split at h
    . exact .inl h
    . next item hget =>
      split at h
      . exact .inl h
      . split at h
        . exact .inl h
        . rcases List.mem_append.mp h with h | h
          . exact .inl h
          . rw [List.mem_singleton] at h
            exact .inr (.inr (.inl ⟨item, (mem_of_get hget).1, id, errorMessage, leaseOwner, lag, rfl, h⟩))
  | retryNow id workspaceId lag =>
    simp only [step, retryNow] at h
    split at h
    . exact .inl h
    . next item hget =>
      split at h
      . exact .inl h
      . split at h
        . exact .inl h
        . rcases List.mem_append.mp h with h | h
          . exact .inl h
          . rw [List.mem_singleton] at h
            exact .inr (.inr (.inr ⟨item, (mem_of_get hget).1, id, workspaceId, lag, rfl, h⟩))
  | write call =>
    simp only [step, write] at h
    split at h
    . cases mem_calls_set h with
      | inl h => exact .inl h
      | inr h => exact .inr (.inl h)
    . cases mem_calls_set h with
      | inl h => exact .inl h
      | inr h => exact .inr (.inl h)
    . exact .inl h
  | _ => exact .inl h

end Table

end Outbox

end Workspace
end MemStack
