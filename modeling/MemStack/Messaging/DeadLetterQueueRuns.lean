import MemStack.Messaging.DeadLetterQueue
import MemStack.Util.DictCount

/-!
This module contains which runs of the dead letter queue keep its counters and its index of pending messages true.
-/

namespace MemStack
namespace Messaging

def StatsField.ofStatus : DLQMessageStatus → Option StatsField
  | .pending => some .pendingCount
  | .retrying => none
  | .discarded => some .discardedCount
  | .expired => some .expiredCount
  | .resolved => some .resolvedCount

namespace RedisDLQ

variable {F : Type} {s s' s'' : RedisDLQ F} {id : String} {m m' : DeadLetterMessage F} {status : DLQMessageStatus}
  {field : StatsField}

def stat (s : RedisDLQ F) (field : StatsField) : Int :=
  (s.stats.get field).getD 0

def number (s : RedisDLQ F) (status : DLQMessageStatus) : Nat :=
  s.messages.count (·.status = status)

structure Consistent (s : RedisDLQ F) : Prop where
  pending : ∀ id, (s.pendingIndex.get id).isSome ↔ ∃ m, s.getMessage id = some m ∧ m.status = .pending
  counts : ∀ status field, StatsField.ofStatus status = some field → s.stat field = s.number status

def Absorbing (s s' : RedisDLQ F) : Prop :=
  ∀ id m m', s.getMessage id = some m → m.status = .resolved ∨ m.status = .discarded ∨ m.status = .expired →
    s'.getMessage id = some m' → m'.status = m.status

abbrev Entry (F : Type) := Machine.Entry (RedisDLQ F) (Request F) Reply

structure Entry.Sound (e : Entry F) : Prop where
  consistent : Consistent e.after
  absorbing : Absorbing e.before e.after

def Call.discards : Call F → List String
  | .discardMessage messageId _ => [messageId]
  | .discardBatch messageIds _ => messageIds
  | _ => []

structure Discardable (s : RedisDLQ F) (ids : List String) : Prop where
  nodup : (ids.filter fun id => (s.getMessage id).isSome).Nodup
  pending : ∀ id ∈ ids, ∀ m, s.getMessage id = some m → m.status = .pending

structure Orderly (s : RedisDLQ F) (request : Request F) : Prop where
  fresh : ∀ event, request.call = .sendToDlq event → (retryDelay event.retryCount).isSome →
    s.getMessage event.id = none
  discardable : s.Discardable request.call.discards

section Effects

variable (s)

@[simp]
theorem stat_hincrby (field : StatsField) (n : Int) (field' : StatsField)
    : (s.hincrby field n).stat field' = s.stat field' + if field' = field then n else 0 := by
  unfold stat hincrby
  rw [Dict.get_set]
  split
  . next h => simp [h]
  . simp

@[simp]
theorem hincrby_messages (field : StatsField) (n : Int) : (s.hincrby field n).messages = s.messages :=
  rfl

@[simp]
theorem hincrby_pendingIndex (field : StatsField) (n : Int) : (s.hincrby field n).pendingIndex = s.pendingIndex :=
  rfl

@[simp]
theorem updateMessage_messages (m : DeadLetterMessage F) : (s.updateMessage m).messages = s.messages.set m.id m :=
  rfl

@[simp]
theorem updateMessage_pendingIndex (m : DeadLetterMessage F) : (s.updateMessage m).pendingIndex = s.pendingIndex :=
  rfl

@[simp]
theorem stat_updateMessage (m : DeadLetterMessage F) (field : StatsField)
    : (s.updateMessage m).stat field = s.stat field :=
  rfl

@[simp]
theorem removeFromIndexes_messages (m : DeadLetterMessage F) : (s.removeFromIndexes m).messages = s.messages :=
  rfl

@[simp]
theorem removeFromIndexes_pendingIndex (m : DeadLetterMessage F)
    : (s.removeFromIndexes m).pendingIndex = s.pendingIndex.erase m.id :=
  rfl

@[simp]
theorem stat_removeFromIndexes (m : DeadLetterMessage F) (field : StatsField)
    : (s.removeFromIndexes m).stat field = s.stat field :=
  rfl

end Effects

theorem retryDelay_isSome_iff (retryCount : Int) : (retryDelay retryCount).isSome ↔ -4 ≤ retryCount := by
  unfold retryDelay pyGet retryDelays
  simp only [List.length_cons, List.length_nil]
  split
  . split
    . simp
      omega
    . simp
      omega
  . simp
    omega

structure Shape (s : RedisDLQ F) : Prop where
  keyed : ∀ id m, s.getMessage id = some m → m.id = id
  bounded : ∀ id m, s.getMessage id = some m → -4 ≤ m.retryCount
  settled : ∀ id m, s.getMessage id = some m → m.status ≠ .retrying
  pending : ∀ id, (s.pendingIndex.get id).isSome ↔ ∃ m, s.getMessage id = some m ∧ m.status = .pending

structure Inv (s : RedisDLQ F) : Prop where
  shape : Shape s
  counts : ∀ status field, StatsField.ofStatus status = some field → s.stat field = s.number status

theorem Inv.consistent (h : Inv s) : Consistent s :=
  ⟨h.shape.pending, h.counts⟩

-- The message under `id` is replaced, and stays in the index of pending messages just if it stays pending.
structure Becomes (s s' : RedisDLQ F) (id : String) (m' : DeadLetterMessage F) : Prop where
  messages : s'.messages = s.messages.set id m'
  index : ∀ id', s'.pendingIndex.get id' = if id' = id ∧ m'.status ≠ .pending then none else s.pendingIndex.get id'

theorem getMessage_of_set (h : s'.messages = s.messages.set id m') (id' : String)
    : s'.getMessage id' = if id' = id then some m' else s.getMessage id' := by
  unfold RedisDLQ.getMessage
  rw [h, Dict.get_set]

theorem each_of_set {P : String → DeadLetterMessage F → Prop}
    (hget : ∀ id', s'.getMessage id' = if id' = id then some m' else s.getMessage id') (hm : P id m')
    (h : ∀ id m, s.getMessage id = some m → P id m)
    : ∀ id m, s'.getMessage id = some m → P id m := by
  intro id' other hother
  rw [hget] at hother
  split at hother
  . next heq =>
    cases hother
    rw [heq]
    exact hm
  . exact h id' other hother

theorem Becomes.getMessage (h : Becomes s s' id m') (id' : String)
    : s'.getMessage id' = if id' = id then some m' else s.getMessage id' :=
  getMessage_of_set h.messages id'

theorem Becomes.number (h : Becomes s s' id m') (hm : s.getMessage id = some m) (status : DLQMessageStatus)
    : s'.number status + (if m.status = status then 1 else 0) =
        s.number status + if m'.status = status then 1 else 0 := by
  unfold RedisDLQ.number
  rw [h.messages]
  have := Dict.count_set_of_get (fun m : DeadLetterMessage F => decide (m.status = status)) hm m'
  simpa using this

theorem Shape.becomes (h : Shape s) (hm : s.getMessage id = some m) (hpending : m.status = .pending)
    (hb : Becomes s s' id m') (hid : m'.id = id) (hbounded : -4 ≤ m'.retryCount) (hsettled : m'.status ≠ .retrying)
    : Shape s' := by
  have hget := hb.getMessage
  refine ⟨each_of_set hget hid h.keyed, each_of_set hget hbounded h.bounded, each_of_set hget hsettled h.settled, ?_⟩
  intro id'
  rw [hb.index, hget]
  by_cases heq : id' = id
  . have hindexed : (s.pendingIndex.get id').isSome := by
      rw [h.pending, heq]
      exact ⟨m, hm, hpending⟩
    by_cases hstatus : m'.status = .pending
    . simp [heq, hstatus]
      rw [← heq]
      exact hindexed
    . simp [heq, hstatus]
  . simp only [heq, false_and, if_false]
    exact h.pending id'

def KeepsFinal (s s' : RedisDLQ F) : Prop :=
  ∀ id m, s.getMessage id = some m → m.status ≠ .pending → s'.getMessage id = some m

theorem KeepsFinal.refl (s : RedisDLQ F) : KeepsFinal s s := by
  intro _ _ h _
  exact h

theorem KeepsFinal.trans (h : KeepsFinal s s') (h' : KeepsFinal s' s'') : KeepsFinal s s'' := by
  intro id m hm hstatus
  exact h' id m (h id m hm hstatus) hstatus

theorem KeepsFinal.absorbing (h : KeepsFinal s s') : Absorbing s s' := by
  intro id m m' hm hfinal hm'
  have hstatus : m.status ≠ .pending := by
    rcases hfinal with h | h | h <;> rw [h] <;> decide
  rw [h id m hm hstatus] at hm'
  cases hm'
  rfl

theorem Becomes.keepsFinal (h : Becomes s s' id m') (hm : s.getMessage id = some m) (hpending : m.status = .pending)
    : KeepsFinal s s' := by
  intro id' other hother hstatus
  rw [h.getMessage, if_neg]
  . exact hother
  . intro heq
    rw [heq, hm] at hother
    cases hother
    exact hstatus hpending

theorem ofStatus_injective {a b : DLQMessageStatus} (ha : StatsField.ofStatus a = some field)
    (hb : StatsField.ofStatus b = some field)
    : a = b := by
  cases a <;> cases b <;> simp_all [StatsField.ofStatus] <;> subst ha <;> cases hb

theorem Inv.becomes_final (h : Inv s) (hm : s.getMessage id = some m) (hpending : m.status = .pending)
    (hb : Becomes s s' id m') (hid : m'.id = id) (hbounded : -4 ≤ m'.retryCount)
    {target : StatsField} (htarget : StatsField.ofStatus m'.status = some target)
    (hstats : ∀ field, s'.stat field
      = s.stat field + (if field = .pendingCount then -1 else 0) + if field = target then 1 else 0)
    : Inv s' := by
  have hsettled : m'.status ≠ .retrying := by
    intro hretrying
    rw [hretrying] at htarget
    cases htarget
  refine ⟨h.shape.becomes hm hpending hb hid hbounded hsettled, ?_⟩
  intro status field hfield
  have hnumber := hb.number hm status
  have hcount := h.counts status field hfield
  rw [hpending] at hnumber
  rw [hstats, hcount]
  have hpendingField : field = .pendingCount ↔ .pending = status := by
    constructor
    . intro heq
      rw [heq] at hfield
      exact ofStatus_injective rfl hfield
    . intro heq
      rw [← heq] at hfield
      cases hfield
      rfl
  have htargetField : field = target ↔ m'.status = status := by
    constructor
    . intro heq
      rw [heq] at hfield
      exact ofStatus_injective htarget hfield
    . intro heq
      rw [heq, hfield] at htarget
      cases htarget
      rfl
  rw [if_congr hpendingField rfl rfl, if_congr htargetField rfl rfl]
  split_ifs at hnumber ⊢ <;> omega

theorem Inv.becomes_pending (h : Inv s) (hm : s.getMessage id = some m) (hpending : m.status = .pending)
    (hb : Becomes s s' id m') (hid : m'.id = id) (hbounded : -4 ≤ m'.retryCount) (hpending' : m'.status = .pending)
    (hstats : ∀ field, s'.stat field = s.stat field)
    : Inv s' := by
  refine ⟨h.shape.becomes hm hpending hb hid hbounded (by rw [hpending']; decide), ?_⟩
  intro status field hfield
  have hnumber := hb.number hm status
  rw [hpending, hpending'] at hnumber
  rw [hstats, h.counts status field hfield]
  omega

theorem pending_of_canRetry (h : m.canRetry = true) : m.status = .pending := by
  unfold DeadLetterMessage.canRetry at h
  exact (of_decide_eq_true h).1

section Retry

variable {hasBus : Bool} {now : Int} {published : Except PublishError Unit}

theorem retryMessage_of_none (hm : s.getMessage id = none) : (s.retryMessage hasBus id now published).1 = s := by
  unfold retryMessage
  rw [hm]

theorem retryMessage_of_not_canRetry (hm : s.getMessage id = some m) (hretry : m.canRetry = false)
    : (s.retryMessage hasBus id now published).1 = s := by
  unfold retryMessage
  simp [hm, hretry]

structure Retried (s s' : RedisDLQ F) (id : String) (m m' : DeadLetterMessage F) : Prop where
  becomes : Becomes s s' id m'
  sameId : m'.id = id
  retryCount : m'.retryCount = m.retryCount + 1
  outcome : m'.status = .pending ∧ (∀ field, s'.stat field = s.stat field) ∨
    m'.status = .resolved ∧ ∀ field, s'.stat field
      = s.stat field + (if field = .pendingCount then -1 else 0) + if field = .resolvedCount then 1 else 0

theorem Retried.of_pending (hid : m'.id = id) (hcount : m'.retryCount = m.retryCount + 1)
    (hstatus : m'.status = .pending) (hmessages : s'.messages = s.messages.set id m')
    (hindex : s'.pendingIndex = s.pendingIndex) (hstats : ∀ field, s'.stat field = s.stat field)
    : Retried s s' id m m' := by
  refine ⟨⟨hmessages, ?_⟩, hid, hcount, .inl ⟨hstatus, hstats⟩⟩
  intro id'
  rw [hindex, if_neg]
  intro hne
  exact hne.2 hstatus

theorem retryMessage_of_canRetry (hm : s.getMessage id = some m) (hid : m.id = id) (hretry : m.canRetry = true)
    (hbounded : -4 ≤ m.retryCount)
    : ∃ m', Retried s (s.retryMessage hasBus id now published).1 id m m' := by
  unfold retryMessage
  simp only [hm, hretry, not_true_eq_false, if_false]
  cases hasBus with
  | false =>
    simp only [Bool.false_eq_true, if_false]
    refine ⟨{ m with status := .pending, retryCount := m.retryCount + 1, lastFailedAt := now }, ?_⟩
    apply Retried.of_pending
    . exact hid
    . rfl
    . rfl
    . simp [hid, Dict.set_set]
    . rfl
    . intro field
      rfl
  | true =>
    simp only [if_true]
    cases published with
    | ok u =>
      refine ⟨{ m with status := .resolved, retryCount := m.retryCount + 1, lastFailedAt := now },
        ⟨?_, ?_⟩, hid, rfl, .inr ⟨rfl, ?_⟩⟩
      . simp [updateStatsOnResolve, hid, Dict.set_set]
      . intro id'
        simp [updateStatsOnResolve, hid, Dict.get_erase]
      . intro field
        simp [updateStatsOnResolve]
    | error e =>
      have hdelay : (retryDelay (m.retryCount + 1)).isSome := by
        rw [retryDelay_isSome_iff]
        omega
      obtain ⟨delay, hdelay⟩ := Option.isSome_iff_exists.mp hdelay
      simp only [hdelay]
      split
      . refine ⟨{ m with
          status := .pending
          retryCount := m.retryCount + 1
          lastFailedAt := now
          error := e.text
          errorTraceback := some e.traceback
          nextRetryAt := some (now + delay * second) }, ?_⟩
        apply Retried.of_pending
        . exact hid
        . rfl
        . rfl
        . simp [hid, Dict.set_set]
        . rfl
        . intro field
          rfl
      . refine ⟨{ m with
          status := .pending
          retryCount := m.retryCount + 1
          lastFailedAt := now
          error := e.text
          errorTraceback := some e.traceback
          nextRetryAt := none }, ?_⟩
        apply Retried.of_pending
        . exact hid
        . rfl
        . rfl
        . simp [hid, Dict.set_set]
        . rfl
        . intro field
          rfl

theorem retryMessage_inv (h : Inv s)
    : Inv (s.retryMessage hasBus id now published).1 ∧ KeepsFinal s (s.retryMessage hasBus id now published).1 := by
  cases hm : s.getMessage id with
  | none =>
    rw [retryMessage_of_none hm]
    exact ⟨h, KeepsFinal.refl s⟩
  | some m =>
    have hbounded := h.shape.bounded _ _ hm
    cases hretry : m.canRetry with
    | false =>
      rw [retryMessage_of_not_canRetry hm hretry]
      exact ⟨h, KeepsFinal.refl s⟩
    | true =>
      have hpending := pending_of_canRetry hretry
      obtain ⟨m', hretried⟩ := @retryMessage_of_canRetry F s id m hasBus now published hm (h.shape.keyed _ _ hm)
        hretry hbounded
      have hbounded' : -4 ≤ m'.retryCount := by
        have hcount := hretried.retryCount
        omega
      refine ⟨?_, hretried.becomes.keepsFinal hm hpending⟩
      rcases hretried.outcome with ⟨hstatus, hstats⟩ | ⟨hstatus, hstats⟩
      . exact h.becomes_pending hm hpending hretried.becomes hretried.sameId hbounded' hstatus hstats
      . have hfield : StatsField.ofStatus m'.status = some .resolvedCount := by
          rw [hstatus]
          rfl
        exact h.becomes_final hm hpending hretried.becomes hretried.sameId hbounded' hfield hstats

end Retry

theorem retryBatch_inv (h : Inv s) (hasBus : Bool) (now : Int) (attempts : List (String × Except PublishError Unit))
    (results : Dict String Bool)
    : Inv (s.retryBatch hasBus now attempts results).1 ∧
        KeepsFinal s (s.retryBatch hasBus now attempts results).1 := by
  induction attempts generalizing s results with
  | nil => exact ⟨h, KeepsFinal.refl s⟩
  | cons attempt attempts ih =>
    have hfirst := @retryMessage_inv F s attempt.1 hasBus now attempt.2 h
    rw [retryBatch]
    have hrest := ih hfirst.1 (results.set attempt.1
      ((s.retryMessage hasBus attempt.1 now attempt.2).2.toOption.getD false))
    exact ⟨hrest.1, hfirst.2.trans hrest.2⟩

def drift (s : RedisDLQ F) : Int :=
  s.number .pending - s.stat .pendingCount

theorem Consistent.drift (h : Consistent s) : s.drift = 0 := by
  unfold RedisDLQ.drift
  rw [h.counts .pending .pendingCount rfl]
  omega

def Keyed (s : RedisDLQ F) : Prop :=
  ∀ id m, s.getMessage id = some m → m.id = id

theorem Becomes.keyed (h : Becomes s s' id m') (hkeyed : Keyed s) (hid : m'.id = id) : Keyed s' :=
  each_of_set h.getMessage hid hkeyed

section Discard

variable {isoformat : Int → String} {reason : String} {now : Int} {ids : List String}

theorem discardMessage_of_none (hm : s.getMessage id = none)
    : (s.discardMessage isoformat id reason now).1 = s := by
  unfold discardMessage
  rw [hm]

theorem discardMessage_of_some (hkeyed : Keyed s) (hm : s.getMessage id = some m)
    : ∃ m', Becomes s (s.discardMessage isoformat id reason now).1 id m' ∧ m'.id = id ∧
        m'.retryCount = m.retryCount ∧ m'.status = .discarded ∧
        ∀ field, (s.discardMessage isoformat id reason now).1.stat field
          = s.stat field + (if field = .pendingCount then -1 else 0) + if field = .discardedCount then 1 else 0 := by
  have hid := hkeyed _ _ hm
  unfold discardMessage
  rw [hm]
  refine ⟨{ m with
      status := .discarded
      metadata := (m.metadata.set "discard_reason" (.str reason)).set "discarded_at" (.str (isoformat now)) },
    ⟨?_, ?_⟩, hid, rfl, rfl, ?_⟩
  . simp [updateStatsOnDiscard, hid]
  . intro id'
    simp [updateStatsOnDiscard, hid, Dict.get_erase]
  . intro field
    simp [updateStatsOnDiscard]

theorem discardMessage_drift (hkeyed : Keyed s) (hm : s.getMessage id = some m)
    : (s.discardMessage isoformat id reason now).1.drift = s.drift + if m.status = .pending then 0 else 1 := by
  rcases @discardMessage_of_some F s id m isoformat reason now hkeyed hm with ⟨m', hb, _, _, hstatus, hstats⟩
  have hnumber := hb.number hm .pending
  rw [hstatus] at hnumber
  unfold drift
  rw [hstats]
  simp at hnumber ⊢
  split_ifs at hnumber ⊢ <;> omega

theorem discardable_cons_of_none (hm : s.getMessage id = none) : Discardable s (id :: ids) ↔ Discardable s ids := by
  constructor
  . intro h
    refine ⟨?_, ?_⟩
    . have := h.nodup
      rwa [List.filter_cons_of_neg (by simp [hm])] at this
    . intro id' hid'
      exact h.pending id' (List.mem_cons_of_mem _ hid')
  . intro h
    refine ⟨?_, ?_⟩
    . rw [List.filter_cons_of_neg (by simp [hm])]
      exact h.nodup
    . intro id' hid' other hother
      rcases List.mem_cons.mp hid' with rfl | hid'
      . rw [hm] at hother
        cases hother
      . exact h.pending id' hid' other hother

theorem discardable_cons_of_pending (hm : s.getMessage id = some m) (hpending : m.status = .pending)
    (hb : Becomes s s' id m') (hstatus : m'.status = .discarded)
    : Discardable s (id :: ids) ↔ Discardable s' ids := by
  have hstored : ∀ id', (s'.getMessage id').isSome = (s.getMessage id').isSome := by
    intro id'
    rw [hb.getMessage]
    split
    . next heq =>
      rw [heq, hm]
      rfl
    . rfl
  have hfilter : (ids.filter fun id => (s'.getMessage id).isSome) = ids.filter fun id => (s.getMessage id).isSome := by
    apply List.filter_congr
    intro id' _
    rw [hstored]
  constructor
  . intro h
    have hnodup := h.nodup
    rw [List.filter_cons_of_pos (by simp [hm]), List.nodup_cons] at hnodup
    refine ⟨?_, ?_⟩
    . rw [hfilter]
      exact hnodup.2
    . intro id' hid' other hother
      rw [hb.getMessage] at hother
      split at hother
      . next heq =>
        exfalso
        apply hnodup.1
        rw [List.mem_filter, ← heq]
        refine ⟨hid', ?_⟩
        rw [heq, hm]
        rfl
      . exact h.pending id' (List.mem_cons_of_mem _ hid') other hother
  . intro h
    have hnew : id ∉ ids := by
      intro hid
      have hget : s'.getMessage id = some m' := by
        rw [hb.getMessage, if_pos rfl]
      have := h.pending id hid m' hget
      rw [hstatus] at this
      cases this
    refine ⟨?_, ?_⟩
    . rw [List.filter_cons_of_pos (by simp [hm]), List.nodup_cons, ← hfilter]
      refine ⟨?_, h.nodup⟩
      intro hid
      exact hnew (List.mem_filter.mp hid).1
    . intro id' hid' other hother
      rcases List.mem_cons.mp hid' with rfl | hid'
      . rw [hm] at hother
        cases hother
        exact hpending
      . apply h.pending id' hid' other
        rw [hb.getMessage, if_neg]
        . exact hother
        . intro heq
          rw [heq] at hid'
          exact hnew hid'

theorem discardMessage_inv (h : Inv s) (hpending : ∀ m, s.getMessage id = some m → m.status = .pending)
    : Inv (s.discardMessage isoformat id reason now).1 ∧
        KeepsFinal s (s.discardMessage isoformat id reason now).1 := by
  cases hm : s.getMessage id with
  | none =>
    rw [discardMessage_of_none hm]
    exact ⟨h, KeepsFinal.refl s⟩
  | some m =>
    rcases @discardMessage_of_some F s id m isoformat reason now h.shape.keyed hm with
      ⟨m', hb, hid, hcount, hstatus, hstats⟩
    have hfield : StatsField.ofStatus m'.status = some .discardedCount := by
      rw [hstatus]
      rfl
    have hbounded : -4 ≤ m'.retryCount := by
      rw [hcount]
      exact h.shape.bounded _ _ hm
    exact ⟨h.becomes_final hm (hpending m hm) hb hid hbounded hfield hstats, hb.keepsFinal hm (hpending m hm)⟩

theorem discardBatch_inv (h : Inv s) (hids : Discardable s ids) (results : Dict String Bool)
    : Inv (s.discardBatch isoformat reason now ids results).1 ∧
        KeepsFinal s (s.discardBatch isoformat reason now ids results).1 := by
  induction ids generalizing s results with
  | nil => exact ⟨h, KeepsFinal.refl s⟩
  | cons id ids ih =>
    rw [discardBatch]
    have hfirst := @discardMessage_inv F s id isoformat reason now h (hids.pending id List.mem_cons_self)
    have hrest : Discardable (s.discardMessage isoformat id reason now).1 ids := by
      cases hm : s.getMessage id with
      | none =>
        rw [discardMessage_of_none hm]
        exact (discardable_cons_of_none hm).mp hids
      | some m =>
        rcases @discardMessage_of_some F s id m isoformat reason now h.shape.keyed hm with ⟨m', hb, _, _, hstatus, _⟩
        exact (discardable_cons_of_pending hm (hids.pending id List.mem_cons_self m hm) hb hstatus).mp hids
    have := ih hfirst.1 hrest (results.set id ((s.discardMessage isoformat id reason now).2.toOption.getD false))
    exact ⟨this.1, hfirst.2.trans this.2⟩

theorem discardBatch_drift (hkeyed : Keyed s) (results : Dict String Bool)
    : s.drift ≤ (s.discardBatch isoformat reason now ids results).1.drift ∧
        ((s.discardBatch isoformat reason now ids results).1.drift = s.drift → Discardable s ids) := by
  induction ids generalizing s results with
  | nil =>
    refine ⟨le_refl _, ?_⟩
    intro _
    constructor
    . simp
    . simp
  | cons id ids ih =>
    rw [discardBatch]
    cases hm : s.getMessage id with
    | none =>
      dsimp only
      rw [discardMessage_of_none hm, discardable_cons_of_none hm]
      exact ih hkeyed _
    | some m =>
      rcases @discardMessage_of_some F s id m isoformat reason now hkeyed hm with ⟨m', hb, hid, _, hstatus, _⟩
      have hdrift := @discardMessage_drift F s id m isoformat reason now hkeyed hm
      have hrest := ih (hb.keyed hkeyed hid)
        (results.set id ((s.discardMessage isoformat id reason now).2.toOption.getD false))
      by_cases hpending : m.status = .pending
      . rw [if_pos hpending, add_zero] at hdrift
        rw [hdrift] at hrest
        rw [discardable_cons_of_pending hm hpending hb hstatus]
        exact hrest
      . rw [if_neg hpending] at hdrift
        dsimp only
        refine ⟨by omega, ?_⟩
        intro hsame
        omega

end Discard

section Send

variable {event : FailedEvent F} {now : Int}

theorem sendToDlq_of_none (h : retryDelay event.retryCount = none) : (s.sendToDlq event now).1 = s := by
  unfold sendToDlq
  rw [h]

theorem sendToDlq_of_isSome (h : (retryDelay event.retryCount).isSome)
    : ∃ m', m'.id = event.id ∧ m'.retryCount = event.retryCount ∧ m'.status = .pending ∧
        (s.sendToDlq event now).1.messages = s.messages.set event.id m' ∧
        (s.sendToDlq event now).1.pendingIndex = s.pendingIndex.set event.id now ∧
        ∀ status field, StatsField.ofStatus status = some field →
          (s.sendToDlq event now).1.stat field = s.stat field + if field = .pendingCount then 1 else 0 := by
  unfold sendToDlq
  cases hdelay : retryDelay event.retryCount with
  | none =>
    rw [hdelay] at h
    cases h
  | some delay =>
    refine ⟨_, ?_, ?_, ?_, Eq.refl _, rfl, ?_⟩
    . rfl
    . rfl
    . rfl
    intro status field hfield
    simp only [stat_hincrby]
    cases status <;> cases hfield <;> simp [stat]

theorem sendToDlq_inv (h : Inv s) (hfresh : s.getMessage event.id = none)
    : Inv (s.sendToDlq event now).1 ∧ KeepsFinal s (s.sendToDlq event now).1 := by
  cases hdelay : retryDelay event.retryCount with
  | none =>
    rw [sendToDlq_of_none hdelay]
    exact ⟨h, KeepsFinal.refl s⟩
  | some delay =>
    have hsome : (retryDelay event.retryCount).isSome := by
      rw [hdelay]
      rfl
    rcases @sendToDlq_of_isSome F s event now hsome with ⟨m', hid, hcount, hstatus, hmessages, hindex, hstats⟩
    have hget := getMessage_of_set hmessages
    refine ⟨⟨⟨?_, ?_, ?_, ?_⟩, ?_⟩, ?_⟩
    . intro id m hm
      rw [hget] at hm
      split at hm
      . next heq =>
        cases hm
        rw [hid, heq]
      . exact h.shape.keyed id m hm
    . intro id m hm
      rw [hget] at hm
      split at hm
      . cases hm
        rw [hcount]
        exact (retryDelay_isSome_iff _).mp hsome
      . exact h.shape.bounded id m hm
    . intro id m hm
      rw [hget] at hm
      split at hm
      . cases hm
        rw [hstatus]
        decide
      . exact h.shape.settled id m hm
    . intro id
      rw [hindex, hget, Dict.get_set]
      by_cases heq : id = event.id
      . simp [heq, hstatus]
      . rw [if_neg heq, if_neg heq]
        exact h.shape.pending id
    . intro status field hfield
      rw [hstats status field hfield, h.counts status field hfield]
      unfold number
      rw [hmessages, Dict.count_set_of_notMem _ hfresh, hstatus]
      have hpendingField : field = .pendingCount ↔ .pending = status := by
        constructor
        . intro heq
          rw [heq] at hfield
          exact ofStatus_injective rfl hfield
        . intro heq
          rw [← heq] at hfield
          cases hfield
          rfl
      rw [if_congr hpendingField rfl rfl]
      by_cases heq : DLQMessageStatus.pending = status
      . simp [heq]
      . simp [heq]
    . intro id m hm _
      rw [hget, if_neg]
      . exact hm
      . intro heq
        rw [heq, hfresh] at hm
        cases hm

theorem not_consistent_sendToDlq (h : Inv s) (hsome : (retryDelay event.retryCount).isSome)
    (hm : s.getMessage event.id = some m)
    : ¬Consistent (s.sendToDlq event now).1 := by
  intro hconsistent
  rcases @sendToDlq_of_isSome F s event now hsome with ⟨m', _, _, hstatus, hmessages, _, hstats⟩
  have hnumber : ∀ status, (s.sendToDlq event now).1.number status + (if m.status = status then 1 else 0)
      = s.number status + if DLQMessageStatus.pending = status then 1 else 0 := by
    intro status
    unfold number
    rw [hmessages]
    have := Dict.count_set_of_get (fun m : DeadLetterMessage F => decide (m.status = status)) hm m'
    rw [hstatus] at this
    simpa using this
  have hfield : ∃ field, StatsField.ofStatus m.status = some field := by
    have := h.shape.settled _ _ hm
    cases hstatus : m.status with
    | retrying => exact absurd hstatus this
    | pending => exact ⟨_, rfl⟩
    | discarded => exact ⟨_, rfl⟩
    | expired => exact ⟨_, rfl⟩
    | resolved => exact ⟨_, rfl⟩
  rcases hfield with ⟨field, hfield⟩
  have hafter := hconsistent.counts m.status field hfield
  rw [hstats m.status field hfield, h.counts m.status field hfield] at hafter
  have hcount := hnumber m.status
  by_cases hpending : m.status = .pending
  . rw [hpending] at hfield hafter hcount
    cases hfield
    simp at hafter hcount
    omega
  . have hne : field ≠ .pendingCount := by
      intro heq
      rw [heq] at hfield
      exact hpending (ofStatus_injective hfield rfl)
    rw [if_neg hne] at hafter
    rw [if_pos rfl, if_neg (fun heq => hpending heq.symm)] at hcount
    omega

end Send

section Cleanup

variable {now olderThanHours : Int} {ids : List String}

theorem nodup_pendingUntil (s : RedisDLQ F) (cutoff : Int) : (s.pendingUntil cutoff).Nodup := by
  unfold pendingUntil
  have hperm := List.perm_insertionSort (fun a b : String × Int => a.2 < b.2 ∨ (a.2 = b.2 ∧ a.1 ≤ b.1))
    (s.pendingIndex.entries.filter (·.2 ≤ cutoff))
  rw [(hperm.map Prod.fst).nodup_iff]
  exact (List.filter_sublist.map _).nodup s.pendingIndex.nodup

theorem pending_of_mem_pendingUntil (h : Shape s) {cutoff : Int} (hid : id ∈ s.pendingUntil cutoff)
    : ∃ m, s.getMessage id = some m ∧ m.status = .pending := by
  rw [← h.pending]
  unfold pendingUntil at hid
  rcases List.mem_map.mp hid with ⟨entry, hentry, rfl⟩
  rw [List.mem_insertionSort] at hentry
  have hget : s.pendingIndex.get entry.1 = some entry.2 := Dict.get_eq_some.mpr (List.mem_filter.mp hentry).1
  rw [hget]
  rfl

def expireMessage (s : RedisDLQ F) (m : DeadLetterMessage F) : RedisDLQ F :=
  (s.updateMessage { m with status := .expired }).removeFromIndexes { m with status := .expired }

theorem expireAll_of_some (hm : s.getMessage id = some m) (ids : List String) (count : Nat)
    : s.expireAll (id :: ids) count = (s.expireMessage m).expireAll ids (count + 1) := by
  rw [expireAll, hm]
  rfl

theorem becomes_expired (hid : m.id = id) : Becomes s (s.expireMessage m) id { m with status := .expired } := by
  unfold expireMessage
  constructor
  . simp [hid]
  . intro id'
    simp [hid, Dict.get_erase]

structure Expired (s s' : RedisDLQ F) (n : Nat) : Prop where
  shape : Shape s'
  keeps : KeepsFinal s s'
  number : ∀ status, s'.number status + (if .pending = status then n else 0)
    = s.number status + if .expired = status then n else 0
  stat : ∀ field, s'.stat field = s.stat field

theorem expireAll_expired (h : Shape s) (hnodup : ids.Nodup)
    (hpending : ∀ id ∈ ids, ∃ m, s.getMessage id = some m ∧ m.status = .pending) (count : Nat)
    : Expired s (s.expireAll ids count).1 ids.length ∧ (s.expireAll ids count).2 = count + ids.length := by
  induction ids generalizing s count with
  | nil => exact ⟨⟨h, KeepsFinal.refl s, fun _ => by simp [expireAll], fun _ => rfl⟩, rfl⟩
  | cons id ids ih =>
    rcases hpending id List.mem_cons_self with ⟨m, hm, hstatus⟩
    rw [List.nodup_cons] at hnodup
    have hid := h.keyed _ _ hm
    have hb := @becomes_expired F s id m hid
    have hstats : ∀ field, (s.expireMessage m).stat field = s.stat field := fun _ => rfl
    rw [expireAll_of_some hm]
    generalize s.expireMessage m = s' at hb hstats
    have hshape : Shape s' := h.becomes hm hstatus hb hid (h.bounded id m hm) (by simp)
    have hrest := ih hshape hnodup.2 (by
      intro id' hid'
      rw [hb.getMessage, if_neg]
      . exact hpending id' (List.mem_cons_of_mem _ hid')
      . intro heq
        rw [heq] at hid'
        exact hnodup.1 hid') (count + 1)
    refine ⟨⟨hrest.1.shape, (hb.keepsFinal hm hstatus).trans hrest.1.keeps, ?_, ?_⟩, ?_⟩
    . intro status
      have hfirst := hb.number hm status
      have hnumber := hrest.1.number status
      rw [hstatus] at hfirst
      rw [List.length_cons]
      cases status <;> simp at hfirst hnumber ⊢ <;> omega
    . intro field
      rw [hrest.1.stat, hstats]
    . rw [hrest.2, List.length_cons]
      omega

theorem cleanupExpired_inv (h : Inv s) (olderThanHours now : Int)
    : Inv (s.cleanupExpired olderThanHours now).1 ∧ KeepsFinal s (s.cleanupExpired olderThanHours now).1 := by
  have hexpired := expireAll_expired h.shape (s.nodup_pendingUntil (cutoff now olderThanHours))
    (fun id hid => pending_of_mem_pendingUntil h.shape hid) 0
  unfold cleanupExpired
  dsimp only
  generalize hpass : s.expireAll (s.pendingUntil (cutoff now olderThanHours)) 0 = pass at hexpired
  rcases pass with ⟨s', count⟩
  dsimp only at hexpired ⊢
  have hcount : count = (s.pendingUntil (cutoff now olderThanHours)).length := by
    rw [hexpired.2, Nat.zero_add]
  rw [← hcount] at hexpired
  have hcounts : ∀ status field, StatsField.ofStatus status = some field →
      s'.stat field + (if field = .pendingCount then -(count : Int) else 0) +
        (if field = .expiredCount then (count : Int) else 0)
        = s'.number status := by
    intro status field hfield
    have hnumber := hexpired.1.number status
    rw [hexpired.1.stat, h.counts status field hfield]
    cases status <;> cases hfield <;> simp at hnumber ⊢ <;> omega
  split
  . refine ⟨⟨?_, ?_⟩, hexpired.1.keeps⟩
    . exact ⟨hexpired.1.shape.keyed, hexpired.1.shape.bounded, hexpired.1.shape.settled, hexpired.1.shape.pending⟩
    . intro status field hfield
      rw [stat_hincrby, stat_hincrby]
      exact hcounts status field hfield
  . next hzero =>
    refine ⟨⟨hexpired.1.shape, ?_⟩, hexpired.1.keeps⟩
    intro status field hfield
    have := hcounts status field hfield
    have hnone : count = 0 := by omega
    rw [hnone] at this
    simpa using this

theorem removeResolved_eq (hstatus : ∀ id ∈ ids, ∀ m, s.getMessage id = some m → m.status ≠ .resolved) (count : Nat)
    : s.removeResolved ids count = (s, count) := by
  induction ids with
  | nil => rfl
  | cons id ids ih =>
    have hrest := ih (fun id' hid' => hstatus id' (List.mem_cons_of_mem _ hid'))
    rw [removeResolved]
    cases hm : s.getMessage id with
    | none => exact hrest
    | some m =>
      dsimp only
      rw [if_neg (hstatus id List.mem_cons_self m hm)]
      exact hrest

theorem cleanupResolved_eq (olderThanHours now : Int)
    (hstatus : ∀ id ∈ s.pendingUntil (cutoff now olderThanHours), ∀ m, s.getMessage id = some m →
      m.status ≠ .resolved)
    : s.cleanupResolved olderThanHours now = (s, 0) := by
  unfold cleanupResolved
  rw [removeResolved_eq hstatus]
  rfl

end Cleanup

theorem step_inv (isoformat : Int → String) (hasBus : Bool) (h : Inv s) (request : Request F)
    (horderly : Orderly s request)
    : Inv (step isoformat hasBus s request).1 ∧ KeepsFinal s (step isoformat hasBus s request).1 := by
  cases request with
  | mk call now =>
    cases call with
    | sendToDlq event =>
      cases hdelay : retryDelay event.retryCount with
      | none =>
        have hsame := @sendToDlq_of_none F s event now hdelay
        show Inv (s.sendToDlq event now).1 ∧ _
        rw [show (step isoformat hasBus s ⟨.sendToDlq event, now⟩).1 = s from hsame, hsame]
        exact ⟨h, KeepsFinal.refl s⟩
      | some delay =>
        apply sendToDlq_inv h
        apply horderly.fresh event rfl
        rw [hdelay]
        rfl
    | retryMessage messageId published => exact retryMessage_inv h
    | retryBatch attempts => exact retryBatch_inv h hasBus now attempts .empty
    | discardMessage messageId reason =>
      exact discardMessage_inv h (horderly.discardable.pending messageId List.mem_cons_self)
    | discardBatch messageIds reason => exact discardBatch_inv h horderly.discardable .empty
    | cleanupExpired olderThanHours => exact cleanupExpired_inv h olderThanHours now
    | cleanupResolved olderThanHours =>
      have hsame : (step isoformat hasBus s ⟨.cleanupResolved olderThanHours, now⟩).1 = s := by
        show (s.cleanupResolved olderThanHours now).1 = s
        rw [cleanupResolved_eq olderThanHours now]
        intro id hid m hm
        obtain ⟨m', hm', hpending⟩ := pending_of_mem_pendingUntil h.shape hid
        rw [hm] at hm'
        cases hm'
        rw [hpending]
        decide
      rw [hsame]
      exact ⟨h, KeepsFinal.refl s⟩

theorem orderly_of_consistent (isoformat : Int → String) (hasBus : Bool) (h : Inv s) (request : Request F)
    (hafter : Consistent (step isoformat hasBus s request).1)
    : Orderly s request := by
  have hdrift := h.consistent.drift
  constructor
  . intro event hcall hsome
    cases hm : s.getMessage event.id with
    | none => rfl
    | some m =>
      exfalso
      cases request with
      | mk call now =>
        cases hcall
        exact not_consistent_sendToDlq h hsome hm hafter
  . cases request with
    | mk call now =>
      cases call with
      | discardMessage messageId reason =>
        have hbatch := (@discardBatch_drift F s isoformat reason now [messageId] h.shape.keyed .empty).2
        apply hbatch
        rw [hdrift]
        exact hafter.drift
      | discardBatch messageIds reason =>
        have hbatch := (@discardBatch_drift F s isoformat reason now messageIds h.shape.keyed .empty).2
        apply hbatch
        rw [hdrift]
        exact hafter.drift
      | _ => exact ⟨List.nodup_nil, by simp [Call.discards]⟩

theorem empty_inv : Inv ({} : RedisDLQ F) where
  shape := {
    keyed := fun _ _ h => by cases h
    bounded := fun _ _ h => by cases h
    settled := fun _ _ h => by cases h
    pending := fun id => by simp [getMessage] }
  counts := by
    intro status field _
    rfl

/--
The counters, the index of pending messages and the final statuses are kept just by the runs that discard
nothing but pending messages, and that draw a new id for each message.
-/
theorem sound_run_iff (isoformat : Int → String) (hasBus : Bool) (requests : List (Request F))
    : (∀ e ∈ Machine.transcript (step isoformat hasBus) {} requests, Entry.Sound e) ↔
        ∀ e ∈ Machine.transcript (step isoformat hasBus) {} requests, Orderly e.before e.request := by
  apply @Machine.forall_transcript_iff _ _ _ (step isoformat hasBus) Orderly Inv Entry.Sound
  . intro s request h
    refine ⟨⟨?_, ?_⟩, ?_⟩
    . intro hsound
      exact orderly_of_consistent isoformat hasBus h request hsound.consistent
    . intro horderly
      have hinv := step_inv isoformat hasBus h request horderly
      exact ⟨hinv.1.consistent, hinv.2.absorbing⟩
    . intro horderly
      exact (step_inv isoformat hasBus h request horderly).1
  . exact empty_inv

/--
A message is sent, retried with success, and then discarded: it is no longer pending, but one pending
message less is counted.
-/
theorem resolved_then_discarded
    : ∃ requests : List (Request Unit),
        ¬∀ e ∈ Machine.transcript (step (fun _ => "") true) {} requests, Entry.Sound e := by
  refine ⟨[
    ⟨.sendToDlq {
      id := "dlq_1", eventId := "e", eventType := "t", eventData := "d", routingKey := "r", error := "x",
      errorType := "X" }, 0⟩,
    ⟨.retryMessage "dlq_1" (.ok ()), 1⟩,
    ⟨.discardMessage "dlq_1" "late", 2⟩], ?_⟩
  intro h
  have hlast := h _ (by
    rw [Machine.transcript, Machine.transcript, Machine.transcript]
    apply List.mem_cons_of_mem
    apply List.mem_cons_of_mem
    apply List.mem_cons_self)
  have hcount := hlast.consistent.counts .pending .pendingCount rfl
  revert hcount
  decide +kernel

end RedisDLQ

end Messaging
end MemStack
