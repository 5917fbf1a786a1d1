import MemStack.Agent.Hitl.Lemmas

/-!
This module contains just when every answer that was acknowledged gets to the task that waits for it.
-/

namespace MemStack
namespace Agent
namespace Hitl

namespace Coordinator

variable {β : Type} {c c' : Coordinator β} {id : String} {n m call : Nat} {hitlType : HITLType}
  {response : Response β} {request : Request β}

section Property

def Waiting (c : Coordinator β) (n : Nat) : Prop :=
  ∃ hitlType, .waiting n hitlType ∈ c.waits

def Waited (c : Coordinator β) (n : Nat) : Prop :=
  ∃ wait ∈ c.waits, wait.about = some n

def Delivered (c : Coordinator β) (n : Nat) : Prop :=
  ∃ response, (n, response) ∈ c.delivered

structure Deliverable (c : Coordinator β) (n : Nat) : Prop where
  result : ∃ response, c.future n = some (.result response)
  task : c.Waiting n ∨ (¬ c.Waited n ∧ ∃ id, c.pending.get id = some n)

structure NothingLost (c : Coordinator β) : Prop where
  answered : ∀ n ∈ c.acknowledged, c.Delivered n ∨ c.Deliverable n
  single : ∀ n response response', (n, response) ∈ c.delivered → (n, response') ∈ c.delivered →
    response = response'

/-
The step loses an answer: it is acknowledged although the wait was cancelled by its timer and only the
record of that is missing, or the timer fires between the answer and the task that is to go on with it, or
the request is dropped after the answer and before a task came to wait.
-/
inductive Loses (c : Coordinator β) : Request β → Prop where
  | late (id : String) (response : Response β) (accepted : Bool) (n : Nat)
      (hentry : c.pending.get id = some n) (hcancelled : c.future n = some .cancelled)
      (hcompletion : c.completionDone n = false)
      : Loses c (.resolve id response accepted)
  | overtaken (call n : Nat) (hitlType : HITLType) (hwait : c.waits[call]? = some (.waiting n hitlType))
      (hack : n ∈ c.acknowledged) (hdelivered : ¬ c.Delivered n)
      (hother : ∀ call' ≠ call, ∀ hitlType', c.waits[call']? ≠ some (.waiting n hitlType'))
      : Loses c (.expire call)
  | dropped (request : Request β) (id : String) (n : Nat) (hdrops : c.Drops id request)
      (hentry : c.pending.get id = some n) (hack : n ∈ c.acknowledged) (hwaited : ¬ c.Waited n)
      : Loses c request

structure AnswerInv (c : Coordinator β) : Prop where
  entry : ∀ id n response, c.pending.get id = some n → c.future n = some (.result response) →
    n ∈ c.acknowledged
  delivered : ∀ n response, (n, response) ∈ c.delivered → c.future n = some (.result response)
  waited : ∀ n, c.Delivered n → c.Waited n
  answered : ∀ n ∈ c.acknowledged, c.Delivered n ∨ c.Deliverable n

theorem AnswerInv.nothingLost (h : c.AnswerInv) : c.NothingLost := by
  refine ⟨h.answered, ?_⟩
  intro n response response' hfirst hsecond
  have heq := (h.delivered n response hfirst).symm.trans (h.delivered n response' hsecond)
  cases heq
  rfl

end Property

section Preserved

theorem AnswerInv.congr (h : c.AnswerInv)
    (hresult : ∀ n response, c'.future n = some (.result response) ↔ c.future n = some (.result response))
    (hpending : c'.pending = c.pending) (hwaits : c'.waits = c.waits)
    (hdelivered : c'.delivered = c.delivered) (hack : c'.acknowledged = c.acknowledged)
    : c'.AnswerInv := by
  have hdel : ∀ n, c'.Delivered n ↔ c.Delivered n := by
    intro n
    unfold Delivered
    rw [hdelivered]
  have hwaited : ∀ n, c'.Waited n ↔ c.Waited n := by
    intro n
    unfold Waited
    rw [hwaits]
  have hwaiting : ∀ n, c'.Waiting n ↔ c.Waiting n := by
    intro n
    unfold Waiting
    rw [hwaits]
  refine ⟨?_, ?_, ?_, ?_⟩
  . rw [hpending, hack]
    intro id n response hid hfuture
    apply h.entry id n response hid ((hresult n response).mp hfuture)
  . rw [hdelivered]
    intro n response hmem
    apply (hresult n response).mpr (h.delivered n response hmem)
  . intro n hn
    apply (hwaited n).mpr (h.waited n ((hdel n).mp hn))
  . rw [hack]
    intro n hn
    cases h.answered n hn with
    | inl hdelivered => exact .inl ((hdel n).mpr hdelivered)
    | inr hdeliverable =>
      right
      refine ⟨?_, ?_⟩
      . rcases hdeliverable.result with ⟨response, hfuture⟩
        exact ⟨response, (hresult n response).mpr hfuture⟩
      . rw [hwaiting, hwaited, hpending]
        exact hdeliverable.task

theorem result_setFuture_cancelled (hpending : c.isPending n)
    : (c.setFuture n .cancelled).future m = some (.result response)
        ↔
      c.future m = some (.result response) := by
  rw [isPending_iff] at hpending
  rw [future_setFuture]
  split
  . next h =>
    rw [← h, hpending]
    simp
  . rfl

theorem AnswerInv.setCompletion (h : c.AnswerInv) : (c.setCompletion n).AnswerInv := by
  refine AnswerInv.congr h ?_ rfl rfl rfl rfl
  intro m response
  rw [future_setCompletion]

theorem AnswerInv.cancel (h : c.AnswerInv) (hpending : c.isPending n)
    : (c.setFuture n .cancelled).AnswerInv := by
  refine AnswerInv.congr h ?_ rfl rfl rfl rfl
  intro m response
  apply result_setFuture_cancelled hpending

theorem AnswerInv.same (h : c.AnswerInv) (hrequests : c'.requests = c.requests)
    (hpending : c'.pending = c.pending) (hwaits : c'.waits = c.waits)
    (hdelivered : c'.delivered = c.delivered) (hack : c'.acknowledged = c.acknowledged)
    : c'.AnswerInv := by
  apply h.congr _ hpending hwaits hdelivered hack
  intro n response
  unfold Coordinator.future
  rw [hrequests]

theorem AnswerInv.settle_cancelled (h : c.AnswerInv) : (c.settle .cancelled n).AnswerInv := by
  unfold Coordinator.settle
  dsimp only
  split
  . next hpending => exact (h.cancel hpending).setCompletion.same rfl rfl rfl rfl rfl
  . exact h.setCompletion.same rfl rfl rfl rfl rfl

theorem AnswerInv.cleanup (h : c.AnswerInv)
    (hdrop : ∀ n, c.pending.get id = some n → n ∈ c.acknowledged → c.Waited n)
    : (c.cleanupPendingRequest id).AnswerInv := by
  unfold cleanupPendingRequest
  have hget : ∀ id' n, (c.pending.erase id).get id' = some n → c.pending.get id' = some n := by
    intro id' n hid'
    rw [Dict.get_erase] at hid'
    split at hid'
    . cases hid'
    . exact hid'
  refine ⟨?_, h.delivered, h.waited, ?_⟩
  . intro id' n response hid'
    apply h.entry id' n response (hget id' n hid')
  . intro n hn
    cases h.answered n hn with
    | inl hdelivered => exact .inl hdelivered
    | inr hdeliverable =>
      right
      refine ⟨hdeliverable.result, ?_⟩
      cases hdeliverable.task with
      | inl hwaiting => exact .inl hwaiting
      | inr hentry =>
        rcases hentry with ⟨hwaited, id', hid'⟩
        right
        refine ⟨hwaited, id', ?_⟩
        dsimp only
        rw [Dict.get_erase, if_neg, hid']
        intro heq
        rw [heq] at hid'
        exact hwaited (hdrop n hid' hn)

end Preserved

section Tasks

open Lists

variable {waits' : List (Wait β)} {delivered' : List (Nat × Response β)} {wait wait' : Wait β}

theorem AnswerInv.tasks (h : c.AnswerInv) (hkept : ∀ p ∈ c.delivered, p ∈ delivered')
    (hwaited : ∀ n, c.Waited n → Waited { c with waits := waits', delivered := delivered' } n)
    (hdelivered : ∀ n response, (n, response) ∈ delivered' → (n, response) ∈ c.delivered ∨
      (c.future n = some (.result response) ∧ Waited { c with waits := waits', delivered := delivered' } n))
    (hanswered : ∀ n ∈ c.acknowledged, c.Deliverable n →
      Delivered { c with waits := waits', delivered := delivered' } n ∨
        Deliverable { c with waits := waits', delivered := delivered' } n)
    : AnswerInv { c with waits := waits', delivered := delivered' } := by
  refine ⟨h.entry, ?_, ?_, ?_⟩
  . intro n response hmem
    cases hdelivered n response hmem with
    | inl hold => apply h.delivered n response hold
    | inr hnew => exact hnew.1
  . rintro n ⟨response, hmem⟩
    cases hdelivered n response hmem with
    | inl hold => apply hwaited n (h.waited n ⟨response, hold⟩)
    | inr hnew => exact hnew.2
  . intro n hn
    cases h.answered n hn with
    | inl hold =>
      rcases hold with ⟨response, hmem⟩
      exact .inl ⟨response, hkept _ hmem⟩
    | inr hdeliverable => apply hanswered n hn hdeliverable

theorem waited_set_iff (hcall : c.waits[call]? = some wait) (habout : wait'.about = wait.about)
    : Waited { c with waits := c.waits.set call wait', delivered := delivered' } n ↔ c.Waited n := by
  constructor
  . rintro ⟨w, hw, hn⟩
    cases List.mem_or_eq_of_mem_set hw with
    | inl hold => exact ⟨w, hold, hn⟩
    | inr hnew =>
      rw [hnew, habout] at hn
      exact ⟨wait, List.mem_of_getElem? hcall, hn⟩
  . rintro ⟨w, hw, hn⟩
    by_cases hsame : w = wait
    . rw [hsame, ← habout] at hn
      exact ⟨wait', mem_set_of_mem hcall, hn⟩
    . exact ⟨w, mem_set_of_ne hcall hw hsame, hn⟩

theorem waiting_set (hcall : c.waits[call]? = some wait) (hwait : ∀ hitlType, wait ≠ .waiting n hitlType)
    (h : c.Waiting n)
    : Waiting { c with waits := c.waits.set call wait', delivered := delivered' } n := by
  rcases h with ⟨hitlType, hmem⟩
  exact ⟨hitlType, mem_set_of_ne hcall hmem (hwait hitlType).symm⟩

theorem deliverable_set (hcall : c.waits[call]? = some wait) (habout : wait'.about = wait.about)
    (hwait : ∀ hitlType, wait ≠ .waiting n hitlType) (h : c.Deliverable n)
    : Deliverable { c with waits := c.waits.set call wait', delivered := delivered' } n := by
  refine ⟨h.result, ?_⟩
  cases h.task with
  | inl hwaiting => exact .inl (waiting_set hcall hwait hwaiting)
  | inr hentry =>
    right
    rw [waited_set_iff hcall habout]
    exact hentry

theorem AnswerInv.setWait (h : c.AnswerInv) (hcall : c.waits[call]? = some wait)
    (habout : wait'.about = wait.about)
    (hlast : ∀ n hitlType, wait = .waiting n hitlType → n ∈ c.acknowledged → c.Deliverable n →
      c.Delivered n ∨ Waiting { c with waits := c.waits.set call wait' } n)
    : AnswerInv { c with waits := c.waits.set call wait' } := by
  apply h.tasks (fun _ hp => hp)
  . intro n hn
    apply (waited_set_iff hcall habout).mpr hn
  . intro n response hmem
    exact .inl hmem
  . intro n hn hdeliverable
    by_cases hwait : ∃ hitlType, wait = .waiting n hitlType
    . rcases hwait with ⟨hitlType, hwait⟩
      cases hlast n hitlType hwait hn hdeliverable with
      | inl hdelivered => exact .inl hdelivered
      | inr hwaiting => exact .inr ⟨hdeliverable.result, .inl hwaiting⟩
    . right
      apply deliverable_set hcall habout _ hdeliverable
      intro hitlType heq
      exact hwait ⟨hitlType, heq⟩

theorem AnswerInv.deliver (h : c.AnswerInv) (hcall : c.waits[call]? = some (.waiting n hitlType))
    (hfuture : c.future n = some (.result response)) (habout : wait'.about = some n)
    : AnswerInv { c with
        waits := c.waits.set call wait'
        delivered := c.delivered ++ [(n, response)] } := by
  apply h.tasks
  . intro p hp
    apply List.mem_append_left _ hp
  . intro m hm
    apply (waited_set_iff hcall habout).mpr hm
  . intro m response' hmem
    rw [List.mem_append, List.mem_singleton] at hmem
    cases hmem with
    | inl hold => exact .inl hold
    | inr hnew =>
      cases hnew
      refine .inr ⟨hfuture, ?_⟩
      exact ⟨wait', mem_set_of_mem hcall, habout⟩
  . intro m _ hdeliverable
    by_cases heq : m = n
    . rw [heq]
      exact .inl ⟨response, List.mem_append_right _ (List.mem_singleton_self _)⟩
    . right
      apply deliverable_set hcall habout _ hdeliverable
      rintro hitlType' ⟨rfl, rfl⟩
      exact heq rfl

theorem waited_append_iff
    : Waited { c with waits := c.waits ++ [wait], delivered := delivered' } n
        ↔
      c.Waited n ∨ wait.about = some n := by
  unfold Waited
  simp only [List.mem_append, List.mem_singleton, or_and_right, exists_or, exists_eq_left]

theorem deliverable_append (hwait : wait.about ≠ some n) (h : c.Deliverable n)
    : Deliverable { c with waits := c.waits ++ [wait], delivered := delivered' } n := by
  refine ⟨h.result, ?_⟩
  cases h.task with
  | inl hwaiting =>
    rcases hwaiting with ⟨hitlType, hmem⟩
    exact .inl ⟨hitlType, List.mem_append_left _ hmem⟩
  | inr hentry =>
    right
    rw [waited_append_iff, not_or]
    exact ⟨⟨hentry.1, hwait⟩, hentry.2⟩

theorem AnswerInv.addWait (h : c.AnswerInv)
    (hnew : ∀ n, wait.about = some n → n ∈ c.acknowledged → c.Deliverable n →
      ∃ hitlType, wait = .waiting n hitlType)
    : AnswerInv { c with waits := c.waits ++ [wait] } := by
  apply h.tasks (fun _ hp => hp)
  . intro n hn
    apply waited_append_iff.mpr (.inl hn)
  . intro n response hmem
    exact .inl hmem
  . intro n hn hdeliverable
    right
    by_cases habout : wait.about = some n
    . rcases hnew n habout hn hdeliverable with ⟨hitlType, rfl⟩
      refine ⟨hdeliverable.result, .inl ⟨hitlType, ?_⟩⟩
      apply List.mem_append_right _ (List.mem_singleton_self _)
    . apply deliverable_append habout hdeliverable

theorem AnswerInv.addDelivered (h : c.AnswerInv) (hfuture : c.future n = some (.result response))
    (habout : wait.about = some n)
    : AnswerInv { c with
        waits := c.waits ++ [wait]
        delivered := c.delivered ++ [(n, response)] } := by
  apply h.tasks
  . intro p hp
    apply List.mem_append_left _ hp
  . intro m hm
    apply waited_append_iff.mpr (.inl hm)
  . intro m response' hmem
    rw [List.mem_append, List.mem_singleton] at hmem
    cases hmem with
    | inl hold => exact .inl hold
    | inr hnew =>
      cases hnew
      exact .inr ⟨hfuture, waited_append_iff.mpr (.inr habout)⟩
  . intro m _ hdeliverable
    by_cases heq : m = n
    . rw [heq]
      exact .inl ⟨response, List.mem_append_right _ (List.mem_singleton_self _)⟩
    . right
      apply deliverable_append _ hdeliverable
      rw [habout]
      rintro ⟨rfl⟩
      exact heq rfl

end Tasks

section Steps

theorem inv_prepareRequest (h : c.AnswerInv) (hloses : ¬ c.Loses (.prepareRequest id))
    : (c.prepareRequest id).AnswerInv := by
  have hfuture : ∀ m response, (c.prepareRequest id).future m = some (.result response) ↔
      c.future m = some (.result response) := by
    intro m response
    unfold Coordinator.future prepareRequest
    dsimp only
    by_cases hlt : m < c.requests.length
    . rw [List.getElem?_append_left hlt]
    . rw [List.getElem?_append_right (Nat.le_of_not_lt hlt),
        List.getElem?_eq_none (Nat.le_of_not_lt hlt)]
      cases m - c.requests.length with
      | zero => simp
      | succ k => simp
  refine ⟨?_, ?_, h.waited, ?_⟩
  . intro id' m response hget hresult
    have hget : (c.pending.set id c.requests.length).get id' = some m := hget
    rw [hfuture] at hresult
    rw [Dict.get_set] at hget
    split at hget
    . cases hget
      unfold Coordinator.future at hresult
      rw [List.getElem?_eq_none (Nat.le_refl _)] at hresult
      cases hresult
    . apply h.entry id' m response hget hresult
  . intro m response hmem
    rw [hfuture]
    apply h.delivered m response hmem
  . intro m hm
    cases h.answered m hm with
    | inl hdelivered => exact .inl hdelivered
    | inr hdeliverable =>
      right
      refine ⟨?_, ?_⟩
      . rcases hdeliverable.result with ⟨response, hresult⟩
        exact ⟨response, (hfuture m response).mpr hresult⟩
      . cases hdeliverable.task with
        | inl hwaiting => exact .inl hwaiting
        | inr hentry =>
          rcases hentry with ⟨hwaited, id', hid'⟩
          right
          refine ⟨hwaited, id', ?_⟩
          unfold prepareRequest
          dsimp only
          rw [Dict.get_set, if_neg, hid']
          intro heq
          rw [heq] at hid'
          exact hloses (.dropped _ id m rfl hid' hm hwaited)

theorem inv_cleanup (h : c.AnswerInv) (hdrops : c.Drops id request) (hloses : ¬ c.Loses request)
    : (c.cleanupPendingRequest id).AnswerInv := by
  apply h.cleanup
  intro n hget hack
  by_contra hwaited
  exact hloses (.dropped request id n hdrops hget hack hwaited)

theorem inv_persisted {ok : Bool} (h : c.AnswerInv) (hloses : ¬ c.Loses (.persisted call ok))
    : (c.persisted call ok).AnswerInv := by
  unfold persisted
  split
  . next id hcall =>
    dsimp only
    split
    . exact h.same rfl rfl rfl rfl rfl
    . next hok =>
      have hdrops : c.Drops id (.persisted call ok) := ⟨by simpa using hok, hcall⟩
      exact (inv_cleanup h hdrops hloses).same rfl rfl rfl rfl rfl
  . exact h

theorem inv_waitForResponse (h : c.AnswerInv) : (c.waitForResponse id hitlType).AnswerInv := by
  unfold waitForResponse
  split
  . apply h.addWait
    intro n habout
    cases habout
  . next n hget =>
    split
    . exact h
    . apply h.addWait
      rintro m ⟨rfl⟩ _ _
      exact ⟨hitlType, rfl⟩
    . next future hpending hfuture =>
      cases future with
      | pending => exact absurd rfl hpending
      | result response =>
        exact (@AnswerInv.addDelivered _ _ _ _ (.ended (some n) (received hitlType response))
          h hfuture rfl).same rfl rfl rfl rfl rfl
      | cancelled =>
        have hended : AnswerInv { c with waits := c.waits ++ [.ended (some n) .cancelledError] } := by
          apply h.addWait
          rintro m ⟨rfl⟩ _ hdeliverable
          rcases hdeliverable.result with ⟨response, hresult⟩
          rw [hfuture] at hresult
          cases hresult
        exact hended.same rfl rfl rfl rfl rfl

theorem inv_wake (h : c.AnswerInv) : (c.wake call).AnswerInv := by
  unfold wake
  split
  . next n hitlType hcall =>
    split
    . exact h
    . exact h
    . next future hpending hfuture =>
      cases future with
      | pending => exact absurd rfl hpending
      | result response =>
        exact (@AnswerInv.deliver _ _ _ _ _ _ (.ended (some n) (received hitlType response))
          h hcall hfuture rfl).same rfl rfl rfl rfl rfl
      | cancelled =>
        have hended : AnswerInv { c with
            waits := c.waits.set call (.ended (some n) .cancelledError) } := by
          refine @AnswerInv.setWait _ _ _ _ (.ended (some n) .cancelledError) h hcall rfl ?_
          rintro m _ ⟨rfl, rfl⟩ _ hdeliverable
          rcases hdeliverable.result with ⟨response, hresult⟩
          rw [hfuture] at hresult
          cases hresult
        exact hended.same rfl rfl rfl rfl rfl
  . exact h

theorem inv_expire (h : c.AnswerInv) (hloses : ¬ c.Loses (.expire call))
    : (c.expire call).AnswerInv := by
  unfold expire
  split
  . next n hitlType hcall =>
    have hexpired : AnswerInv { c with waits := c.waits.set call (.expired n) } := by
      refine @AnswerInv.setWait _ _ _ _ (.expired n) h hcall rfl ?_
      rintro m _ ⟨rfl, rfl⟩ hack _
      by_contra hlost
      rw [not_or] at hlost
      apply hloses
      refine .overtaken call n hitlType hcall hack hlost.1 ?_
      intro call' hne hitlType' hcall'
      apply hlost.2
      refine ⟨hitlType', List.mem_iff_getElem?.mpr ⟨call', ?_⟩⟩
      dsimp only
      rw [List.getElem?_set_ne hne.symm, hcall']
    dsimp only
    split
    . next hpending => apply hexpired.cancel hpending
    . exact hexpired
  . exact h

theorem inv_timeoutMarked {ok : Bool} (h : c.AnswerInv) (hloses : ¬ c.Loses (.timeoutMarked call ok))
    : (c.timeoutMarked call ok).AnswerInv := by
  unfold timeoutMarked
  split
  . next n hcall =>
    dsimp only
    have hended : ∀ outcome, AnswerInv { c with waits := c.waits.set call (.ended (some n) outcome) } := by
      intro outcome
      refine @AnswerInv.setWait _ _ _ _ (.ended (some n) outcome) h hcall rfl ?_
      intro m hitlType heq
      cases heq
    split
    . next request hrequest =>
      split
      . next hok =>
        have hdrops : c.Drops request.requestId (.timeoutMarked call ok) := by
          refine ⟨hok, n, hcall, ?_⟩
          unfold idOf
          rw [hrequest]
          rfl
        refine AnswerInv.same (AnswerInv.cleanup (hended .timeoutError) ?_) rfl rfl rfl rfl rfl
        intro m hget hack
        by_contra hwaited
        apply hloses
        refine .dropped _ _ m hdrops hget hack ?_
        intro hwaited'
        exact hwaited ((@waited_set_iff _ _ _ _ _ _ (.ended (some n) .timeoutError) hcall rfl).mpr hwaited')
      . exact (hended _).same rfl rfl rfl rfl rfl
    . exact (hended _).same rfl rfl rfl rfl rfl
  . exact h

theorem inv_cancelAll {reason : β} (h : c.AnswerInv) (hloses : ¬ c.Loses (.cancelAll reason))
    : (c.cancelAll reason).AnswerInv := by
  have hresult := fun n response => @Grows.result _ _ _ n response (@grows_step _ c (.cancelAll reason))
  rcases @foldl_settle_keeps _ (.result { cancelled := true, data := reason }) c.pending.values c with
    ⟨hwaits, hdelivered, hack, _⟩
  refine ⟨?_, ?_, ?_, ?_⟩
  . intro id n response hget
    have hget : (Dict.empty : Dict String Nat).get id = some n := hget
    rw [Dict.get_empty] at hget
    cases hget
  . intro n response hmem
    have hmem : (n, response) ∈ _ := hmem
    unfold cancelAll at hmem
    dsimp only at hmem
    rw [hdelivered] at hmem
    apply hresult n response (h.delivered n response hmem)
  . rintro n ⟨response, hmem⟩
    unfold cancelAll at hmem
    dsimp only at hmem
    rw [hdelivered] at hmem
    rcases h.waited n ⟨response, hmem⟩ with ⟨wait, hwait, habout⟩
    refine ⟨wait, ?_, habout⟩
    unfold cancelAll
    dsimp only
    rw [hwaits]
    exact hwait
  . intro n hn
    unfold cancelAll at hn
    dsimp only at hn
    rw [hack] at hn
    cases h.answered n hn with
    | inl hdone =>
      rcases hdone with ⟨response, hmem⟩
      left
      refine ⟨response, ?_⟩
      unfold cancelAll
      dsimp only
      rw [hdelivered]
      exact hmem
    | inr hdeliverable =>
      right
      rcases hdeliverable.result with ⟨response, hfuture⟩
      refine ⟨⟨response, hresult n response hfuture⟩, ?_⟩
      left
      cases hdeliverable.task with
      | inl hwaiting =>
        rcases hwaiting with ⟨hitlType, hmem⟩
        refine ⟨hitlType, ?_⟩
        unfold cancelAll
        dsimp only
        rw [hwaits]
        exact hmem
      | inr hentry =>
        rcases hentry with ⟨hwaited, id, hget⟩
        exact absurd (.dropped _ id n trivial hget hn hwaited) hloses

theorem inv_cancelRequestIfPending (h : c.AnswerInv) (hloses : ¬ c.Loses (.cancelRequestIfPending id))
    : (c.cancelRequestIfPending id).AnswerInv := by
  unfold cancelRequestIfPending
  split
  . exact h
  . next hid =>
    have hdrops : c.Drops id (.cancelRequestIfPending id) := ⟨rfl, hid⟩
    have hcleanup := inv_cleanup h hdrops hloses
    split
    . exact hcleanup
    . exact hcleanup.settle_cancelled

theorem inv_completedMarked {ok : Bool} (h : c.AnswerInv) (hloses : ¬ c.Loses (.completedMarked call ok))
    : (c.completedMarked call ok).AnswerInv := by
  unfold completedMarked
  split
  . exact h
  . next id hcall =>
    dsimp only
    have hcleanup : ok = true → (c.cleanupPendingRequest id).AnswerInv := by
      intro hok
      have hdrops : c.Drops id (.completedMarked call ok) := ⟨hok, hcall⟩
      apply inv_cleanup h hdrops hloses
    split
    . split
      . next hok => exact (hcleanup hok).same rfl rfl rfl rfl rfl
      . exact h.same rfl rfl rfl rfl rfl
    . split
      . next hok => exact (hcleanup hok).setCompletion.same rfl rfl rfl rfl rfl
      . exact h.same rfl rfl rfl rfl rfl

theorem inv_waitForCompletion {timed : Bool} (h : c.AnswerInv)
    : (c.waitForCompletion id timed).AnswerInv := by
  unfold waitForCompletion
  split
  . exact h
  . split
    . exact h
    . exact h.same rfl rfl rfl rfl rfl

theorem inv_expireCompletion (h : c.AnswerInv) : (c.expireCompletion call).AnswerInv := by
  unfold expireCompletion
  split
  . exact h.setCompletion
  . exact h

end Steps

section Resolve

theorem AnswerInv.acknowledge (h : c.AnswerInv) (hack : n ∈ c.acknowledged)
    : AnswerInv { c with acknowledged := c.acknowledged ++ [n] } := by
  refine ⟨?_, h.delivered, h.waited, ?_⟩
  . intro id m response hget hfuture
    apply List.mem_append_left _ (h.entry id m response hget hfuture)
  . intro m hm
    have hold : m ∈ c.acknowledged := by
      rw [List.mem_append, List.mem_singleton] at hm
      rcases hm with hold | rfl
      . exact hold
      . exact hack
    cases h.answered m hold with
    | inl hdelivered => exact .inl hdelivered
    | inr hdeliverable => exact .inr ⟨hdeliverable.result, hdeliverable.task⟩

theorem AnswerInv.answer (h : c.AnswerInv) (hattended : c.Attended) (hget : c.pending.get id = some n)
    (hpending : c.future n = some .pending)
    : AnswerInv { c.setFuture n (.result response) with acknowledged := c.acknowledged ++ [n] } := by
  have hself : (c.setFuture n (.result response)).future n = some (.result response) := by
    rw [future_setFuture, if_pos rfl, hpending]
    rfl
  have hkept := fun m response' => @Grows.result _ _ _ m response'
    (@grows_setFuture _ c n (.result response) (isPending_iff.mpr hpending))
  refine ⟨?_, ?_, h.waited, ?_⟩
  . intro id' m response' hid' hresult
    have hresult : (c.setFuture n (.result response)).future m = some (.result response') := hresult
    rw [future_setFuture] at hresult
    split at hresult
    . next heq =>
      rw [← heq]
      exact List.mem_append_right _ (List.mem_singleton_self n)
    . apply List.mem_append_left _ (h.entry id' m response' hid' hresult)
  . intro m response' hmem
    apply hkept m response' (h.delivered m response' hmem)
  . intro m hm
    have hm : m ∈ c.acknowledged ++ [n] := hm
    rw [List.mem_append, List.mem_singleton] at hm
    rcases hm with hold | rfl
    . cases h.answered m hold with
      | inl hdelivered => exact .inl hdelivered
      | inr hdeliverable =>
        rcases hdeliverable.result with ⟨response', hresult⟩
        exact .inr ⟨⟨response', hkept m response' hresult⟩, hdeliverable.task⟩
    . right
      refine ⟨⟨response, hself⟩, ?_⟩
      by_cases hwaited : c.Waited m
      . left
        rcases hwaited with ⟨wait, hwait, habout⟩
        rcases (hattended wait hwait m habout).2 hpending with ⟨hitlType, rfl⟩
        exact ⟨hitlType, hwait⟩
      . exact .inr ⟨hwaited, id, hget⟩

theorem inv_resolve {accepted : Bool} (h : c.AnswerInv) (hnamed : c.Named) (hattended : c.Attended)
    (hloses : ¬ c.Loses (.resolve id response accepted))
    : (c.resolve id response accepted).1.AnswerInv := by
  unfold resolve
  split
  . exact h
  . next n hget =>
    split
    . next hpending =>
      rw [isPending_iff] at hpending
      split
      . exact h.answer hattended hget hpending
      . exact h
    . next hdone =>
      split
      . exact h
      . next hcompletion =>
        apply h.acknowledge
        rw [isPending_iff] at hdone
        cases hfuture : c.future n with
        | none =>
          unfold Coordinator.future at hfuture
          rw [Option.map_eq_none_iff, List.getElem?_eq_none_iff] at hfuture
          exact absurd (hnamed.lt_length hget) (Nat.not_lt.mpr hfuture)
        | some future =>
          cases future with
          | pending => exact absurd hfuture hdone
          | result response' => apply h.entry id n response' hget hfuture
          | cancelled =>
            exact absurd (.late id response accepted n hget hfuture (by simpa using hcompletion)) hloses

end Resolve

section Lost

theorem lost_of_unanswered (hack : n ∈ c.acknowledged) (hdelivered : ¬ c.Delivered n)
    (hwaiting : ¬ c.Waiting n) (hentry : (∃ id, c.pending.get id = some n) → c.Waited n)
    : ¬ c.NothingLost := by
  intro hnothing
  cases hnothing.answered n hack with
  | inl hdone => exact hdelivered hdone
  | inr hdeliverable =>
    cases hdeliverable.task with
    | inl hw => exact hwaiting hw
    | inr hw => exact hw.1 (hentry hw.2)

theorem lost_of_late {accepted : Bool} (h : c.AnswerInv) (hget : c.pending.get id = some n)
    (hcancelled : c.future n = some .cancelled) (hcompletion : c.completionDone n = false)
    : ¬ (c.resolve id response accepted).1.NothingLost := by
  have hstep : (c.resolve id response accepted).1 = { c with acknowledged := c.acknowledged ++ [n] } := by
    unfold resolve
    rw [hget]
    dsimp only
    rw [if_neg, if_neg]
    . rw [hcompletion]
      nofun
    . rw [isPending_iff, hcancelled]
      nofun
  rw [hstep]
  intro hnothing
  cases hnothing.answered n (List.mem_append_right _ (List.mem_singleton_self n)) with
  | inl hdelivered =>
    rcases hdelivered with ⟨response', hmem⟩
    have hresult := h.delivered n response' hmem
    rw [hcancelled] at hresult
    cases hresult
  | inr hdeliverable =>
    rcases hdeliverable.result with ⟨response', hresult⟩
    have hresult : c.future n = some (.result response') := hresult
    rw [hcancelled] at hresult
    cases hresult

theorem expire_keeps (hcall : c.waits[call]? = some (.waiting n hitlType))
    : (c.expire call).waits = c.waits.set call (.expired n) ∧ (c.expire call).delivered = c.delivered ∧
        (c.expire call).acknowledged = c.acknowledged := by
  unfold expire
  rw [hcall]
  dsimp only
  split <;> exact ⟨rfl, rfl, rfl⟩

theorem lost_of_overtaken (hcall : c.waits[call]? = some (.waiting n hitlType))
    (hack : n ∈ c.acknowledged) (hdelivered : ¬ c.Delivered n)
    (hother : ∀ call' ≠ call, ∀ hitlType', c.waits[call']? ≠ some (.waiting n hitlType'))
    : ¬ (c.expire call).NothingLost := by
  rcases expire_keeps hcall with ⟨hwaits', hdelivered', hack'⟩
  apply lost_of_unanswered
  . rw [hack']
    exact hack
  . unfold Delivered
    rw [hdelivered']
    exact hdelivered
  . rintro ⟨hitlType', hmem⟩
    rw [hwaits', List.mem_iff_getElem?] at hmem
    rcases hmem with ⟨call', hcall'⟩
    by_cases heq : call' = call
    . rw [heq, List.getElem?_set_self (List.getElem?_eq_some_iff.mp hcall).1] at hcall'
      cases hcall'
    . rw [List.getElem?_set_ne (Ne.symm heq)] at hcall'
      exact hother call' heq hitlType' hcall'
  . intro _
    refine ⟨.expired n, ?_, rfl⟩
    rw [hwaits']
    exact Lists.mem_set_of_mem hcall

theorem drops_keeps (hdrops : c.Drops id request)
    : (c.step request).1.delivered = c.delivered ∧ (c.step request).1.acknowledged = c.acknowledged ∧
        (∀ n, (c.step request).1.Waited n → c.Waited n) := by
  cases request with
  | prepareRequest id' => exact ⟨rfl, rfl, fun _ hw => hw⟩
  | persisted call ok =>
    rcases hdrops with ⟨rfl, hcall⟩
    unfold step persisted
    dsimp only
    rw [hcall]
    exact ⟨rfl, rfl, fun _ hw => hw⟩
  | timeoutMarked call ok =>
    rcases hdrops with ⟨rfl, m, hcall, hid⟩
    unfold step timeoutMarked
    dsimp only
    rw [hcall]
    unfold idOf at hid
    rw [Option.map_eq_some_iff] at hid
    rcases hid with ⟨request, hrequest, rfl⟩
    dsimp only
    rw [hrequest]
    refine ⟨rfl, rfl, ?_⟩
    intro n hw
    exact (@waited_set_iff _ c n call c.delivered _ (.ended (some m) .timeoutError) hcall rfl).mp hw
  | completedMarked call ok =>
    rcases hdrops with ⟨rfl, hcall⟩
    unfold step completedMarked
    dsimp only
    rw [hcall]
    dsimp only
    split <;> exact ⟨rfl, rfl, fun _ hw => hw⟩
  | cancelRequestIfPending id' =>
    rcases hdrops with ⟨rfl, hid⟩
    unfold step cancelRequestIfPending settle
    dsimp only
    rw [if_neg hid]
    split
    . exact ⟨rfl, rfl, fun _ hw => hw⟩
    . split <;> exact ⟨rfl, rfl, fun _ hw => hw⟩
  | cancelAll reason =>
    rcases @foldl_settle_keeps _ (.result { cancelled := true, data := reason }) c.pending.values c with
      ⟨hwaits, hdelivered, hack, _⟩
    refine ⟨hdelivered, hack, ?_⟩
    rintro n ⟨wait, hwait, habout⟩
    refine ⟨wait, ?_, habout⟩
    rw [← hwaits]
    exact hwait
  | _ => cases hdrops

theorem lost_of_dropped (h : c.AnswerInv) (hnamed : c.Named) (hdrops : c.Drops id request)
    (hget : c.pending.get id = some n) (hack : n ∈ c.acknowledged) (hwaited : ¬ c.Waited n)
    : ¬ (c.step request).1.NothingLost := by
  rcases drops_keeps hdrops with ⟨hdelivered', hack', hwaited'⟩
  have hnot : ¬ (c.step request).1.Waited n := fun hw => hwaited (hwaited' n hw)
  apply lost_of_unanswered
  . rw [hack']
    exact hack
  . unfold Delivered
    rw [hdelivered']
    intro hdelivered
    exact hwaited (h.waited n hdelivered)
  . rintro ⟨hitlType', hmem⟩
    exact hnot ⟨_, hmem, rfl⟩
  . rintro ⟨id', hid'⟩
    exfalso
    cases pending_step hid' with
    | inl hold =>
      apply hold.1
      rw [hnamed.id_eq hold.2 hget]
      exact hdrops
    | inr hnew => exact absurd (hnamed.lt_length hget) (Nat.not_lt.mpr (Nat.le_of_eq hnew.2.symm))

theorem lost_of_loses (h : c.AnswerInv) (hnamed : c.Named) (hloses : c.Loses request)
    : ¬ (c.step request).1.NothingLost := by
  cases hloses with
  | late id response accepted n hget hcancelled hcompletion =>
    exact lost_of_late h hget hcancelled hcompletion
  | overtaken call n hitlType hcall hack hdelivered hother =>
    exact lost_of_overtaken hcall hack hdelivered hother
  | dropped _ id n hdrops hget hack hwaited =>
    exact lost_of_dropped h hnamed hdrops hget hack hwaited

theorem inv_step (h : c.AnswerInv) (hnamed : c.Named) (hattended : c.Attended) (hloses : ¬ c.Loses request)
    : (c.step request).1.AnswerInv := by
  cases request with
  | prepareRequest id => exact inv_prepareRequest h hloses
  | persisted call ok => exact inv_persisted h hloses
  | waitForResponse id hitlType => exact inv_waitForResponse h
  | wake call => exact inv_wake h
  | expire call => exact inv_expire h hloses
  | timeoutMarked call ok => exact inv_timeoutMarked h hloses
  | resolve id response accepted => exact inv_resolve h hnamed hattended hloses
  | completeRequest id => exact h.same rfl rfl rfl rfl rfl
  | completedMarked call ok => exact inv_completedMarked h hloses
  | cancelRequestIfPending id => exact inv_cancelRequestIfPending h hloses
  | cancelAll reason => exact inv_cancelAll h hloses
  | waitForCompletion id timed => exact inv_waitForCompletion h
  | expireCompletion call => exact inv_expireCompletion h

end Lost

section Run

theorem answerInv_start : ({} : Coordinator β).AnswerInv := by
  refine ⟨?_, nofun, nofun, nofun⟩
  intro id n response hget
  rw [Dict.get_empty] at hget
  cases hget

/-
Every answer that was acknowledged was given to the task that waits for it, or will be, just when no answer
comes between a timer and the clean-up after it, no timer fires between an answer and the task that it wakes,
and no request is dropped between its answer and the task that comes to wait for it.
-/
theorem nothing_lost_iff (requests : List (Request β))
    : (∀ e ∈ Machine.transcript step {} requests, e.after.NothingLost)
        ↔
      ∀ e ∈ Machine.transcript step {} requests, ¬ e.before.Loses e.request := by
  apply @Machine.forall_transcript_iff _ _ _ step (fun c request => ¬ c.Loses request)
    (fun c => c.AnswerInv ∧ c.Named ∧ c.Attended)
  . rintro c request ⟨h, hnamed, hattended⟩
    refine ⟨⟨?_, ?_⟩, ?_⟩
    . intro hnothing hloses
      exact lost_of_loses h hnamed hloses hnothing
    . intro hloses
      exact (inv_step h hnamed hattended hloses).nothingLost
    . intro hloses
      exact ⟨inv_step h hnamed hattended hloses, named_step hnamed, attended_step hattended⟩
  . exact ⟨answerInv_start, named_start, nofun⟩

/--
The user answers while the timeout is being recorded.
-/
theorem late_answer_lost
    : ¬ ∀ requests : List (Request String),
        ∀ e ∈ Machine.transcript step {} requests, e.after.NothingLost := by
  intro hclaim
  have hlast := hclaim
    [.prepareRequest "r", .persisted 0 true, .waitForResponse "r" .clarification, .expire 0,
      .resolve "r" { data := "yes" } true] _ (List.mem_of_mem_getLast? rfl)
  cases hlast.answered 0 (by decide +kernel) with
  | inl hdelivered =>
    rcases hdelivered with ⟨response, hmem⟩
    cases hmem
  | inr hdeliverable =>
    rcases hdeliverable.result with ⟨response, hresult⟩
    cases hresult

end Run

end Coordinator
end Hitl
end Agent
end MemStack
