import MemStack.Agent.Hitl.Coordinator
import MemStack.Util.Lists

/-!
This module contains what a step can do to a request, to the entries and to the tasks of the coordinator.
-/

namespace MemStack
namespace Agent
namespace Hitl

def Wait.about {β : Type} : Wait β → Option Nat
  | .waiting n _ => some n
  | .expired n => some n
  | .ended n _ => n

structure PendingRequest.Later {β : Type} (request request' : PendingRequest β) : Prop where
  id : request'.requestId = request.requestId
  future : request.future = .pending ∨ request'.future = request.future
  completion : request.completionDone = true → request'.completionDone = true

namespace Coordinator

variable {β : Type} {c c' c'' : Coordinator β} {id : String} {n m call : Nat} {hitlType : HITLType}
  {response : Response β} {request : Request β}

section Fields

def idOf (c : Coordinator β) (n : Nat) : Option String :=
  c.requests[n]?.map (·.requestId)

@[simp]
theorem future_setCompletion : (c.setCompletion n).future m = c.future m := by
  unfold Coordinator.future setCompletion
  rw [List.getElem?_modify]
  cases c.requests[m]? with
  | none => rfl
  | some request => by_cases h : n = m <;> simp [h]

theorem future_setFuture {future : Future (Response β)}
    : (c.setFuture n future).future m
        =
      if n = m then (c.future m).map fun _ => future else c.future m := by
  unfold Coordinator.future setFuture
  rw [List.getElem?_modify]
  by_cases h : n = m
  . simp [h]
    rfl
  . simp [h]

theorem isPending_iff : c.isPending n ↔ c.future n = some .pending := by
  unfold isPending
  cases c.future n with
  | none => simp
  | some future => cases future <;> simp [Future.isPending]

theorem future_eq_some {future : Future (Response β)}
    : c.future n = some future ↔ ∃ request, c.requests[n]? = some request ∧ request.future = future := by
  unfold Coordinator.future
  rw [Option.map_eq_some_iff]

theorem completionDone_iff
    : c.completionDone n ↔ ∃ request, c.requests[n]? = some request ∧ request.completionDone = true := by
  unfold completionDone
  rw [Option.any_eq_true]

theorem completionDone_setCompletion (h : n < c.requests.length) : (c.setCompletion n).completionDone n := by
  rw [completionDone_iff]
  unfold setCompletion
  refine ⟨{ c.requests[n] with completionDone := true }, ?_, rfl⟩
  rw [List.getElem?_modify, List.getElem?_eq_getElem h]
  simp

end Fields

section Grows

def Grows (c c' : Coordinator β) : Prop :=
  ∀ (n : Nat) (request : PendingRequest β), c.requests[n]? = some request →
    ∃ request', c'.requests[n]? = some request' ∧ request.Later request'

theorem Grows.of_requests (h : c'.requests = c.requests) : c.Grows c' := by
  intro n request hrequest
  rw [h]
  exact ⟨request, hrequest, rfl, .inr rfl, fun hdone => hdone⟩

theorem Grows.trans (h : c.Grows c') (h' : c'.Grows c'') : c.Grows c'' := by
  intro n request hrequest
  rcases h n request hrequest with ⟨request', hrequest', hlater⟩
  rcases h' n request' hrequest' with ⟨request'', hrequest'', hlater'⟩
  refine ⟨request'', hrequest'', hlater'.id.trans hlater.id, ?_, ?_⟩
  . cases hlater.future with
    | inl hpending => exact .inl hpending
    | inr hsame =>
      rw [← hsame]
      exact hlater'.future
  . intro hdone
    exact hlater'.completion (hlater.completion hdone)

theorem Grows.of_later (h : c''.Grows c') (hrequests : c''.requests = c.requests) : c.Grows c' := by
  intro n request hrequest
  apply h n request
  rw [hrequests, hrequest]

theorem grows_setFuture {future : Future (Response β)} (hpending : c.isPending n)
    : c.Grows (c.setFuture n future) := by
  rw [isPending_iff, future_eq_some] at hpending
  rcases hpending with ⟨request', hrequest', hpending⟩
  intro m request hrequest
  unfold setFuture
  dsimp only
  rw [List.getElem?_modify, hrequest]
  by_cases heq : n = m
  . rw [← heq, hrequest'] at hrequest
    cases hrequest
    refine ⟨_, rfl, ?_⟩
    dsimp only
    rw [if_pos heq]
    exact ⟨rfl, .inl hpending, fun hdone => hdone⟩
  . refine ⟨_, rfl, ?_⟩
    dsimp only
    rw [if_neg heq]
    exact ⟨rfl, .inr rfl, fun hdone => hdone⟩

theorem grows_setCompletion : c.Grows (c.setCompletion n) := by
  intro m request hrequest
  unfold setCompletion
  dsimp only
  rw [List.getElem?_modify, hrequest]
  refine ⟨_, rfl, ?_⟩
  split
  . exact ⟨rfl, .inr rfl, fun _ => rfl⟩
  . exact ⟨rfl, .inr rfl, fun hdone => hdone⟩

theorem grows_settle {future : Future (Response β)} : c.Grows (c.settle future n) := by
  unfold settle
  dsimp only
  split
  . next hpending => exact ((grows_setFuture hpending).trans grows_setCompletion).trans (.of_requests rfl)
  . exact grows_setCompletion.trans (.of_requests rfl)

theorem grows_foldl {future : Future (Response β)} (ns : List Nat) (c : Coordinator β)
    : c.Grows (ns.foldl (fun c n => c.settle future n) c) := by
  induction ns generalizing c with
  | nil => exact .of_requests rfl
  | cons n ns ih =>
    rw [List.foldl_cons]
    exact grows_settle.trans (ih _)

theorem grows_prepareRequest : c.Grows (c.prepareRequest id) := by
  intro n request hrequest
  refine ⟨request, ?_, rfl, .inr rfl, fun hdone => hdone⟩
  unfold prepareRequest
  dsimp only
  rw [List.getElem?_append_left (List.getElem?_eq_some_iff.mp hrequest).1, hrequest]

theorem settled_keeps (future : Future (Response β))
    : (c.settled n hitlType future).1.requests = c.requests ∧
        (c.settled n hitlType future).1.waits = c.waits := by
  unfold settled
  split <;> exact ⟨rfl, rfl⟩

theorem future_settled {future : Future (Response β)}
    : (c.settled n hitlType future).1.future m = c.future m := by
  unfold Coordinator.future
  rw [(settled_keeps future).1]

theorem grows_step : c.Grows (c.step request).1 := by
  cases request with
  | prepareRequest id => exact grows_prepareRequest
  | persisted call ok =>
    unfold step persisted
    dsimp only
    split
    . split <;> exact .of_requests rfl
    . exact .of_requests rfl
  | waitForResponse id hitlType =>
    unfold step waitForResponse
    dsimp only
    split
    . exact .of_requests rfl
    . split
      . exact .of_requests rfl
      . exact .of_requests rfl
      . exact .of_requests (settled_keeps _).1
  | wake call =>
    unfold step wake
    dsimp only
    split
    . split
      . exact .of_requests rfl
      . exact .of_requests rfl
      . exact .of_requests (settled_keeps _).1
    . exact .of_requests rfl
  | expire call =>
    unfold step expire
    dsimp only
    split
    . split
      . next hpending => exact (grows_setFuture hpending).of_later rfl
      . exact .of_requests rfl
    . exact .of_requests rfl
  | timeoutMarked call ok =>
    unfold step timeoutMarked
    dsimp only
    split
    . split
      . split <;> exact .of_requests rfl
      . exact .of_requests rfl
    . exact .of_requests rfl
  | resolve id response accepted =>
    unfold step resolve
    dsimp only
    split
    . exact .of_requests rfl
    . split
      . next hpending =>
        split
        . exact (grows_setFuture hpending).trans (.of_requests rfl)
        . exact .of_requests rfl
      . split <;> exact .of_requests rfl
  | completeRequest id => exact .of_requests rfl
  | completedMarked call ok =>
    unfold step completedMarked
    dsimp only
    split
    . exact .of_requests rfl
    . split
      . split <;> exact .of_requests rfl
      . split
        . exact grows_setCompletion.of_later rfl
        . exact .of_requests rfl
  | cancelRequestIfPending id =>
    unfold step cancelRequestIfPending
    dsimp only
    split
    . exact .of_requests rfl
    . split
      . exact .of_requests rfl
      . exact grows_settle.of_later rfl
  | cancelAll reason => exact (grows_foldl _ c).trans (.of_requests rfl)
  | waitForCompletion id timed =>
    unfold step waitForCompletion
    dsimp only
    split
    . exact .of_requests rfl
    . split <;> exact .of_requests rfl
  | expireCompletion call =>
    unfold step expireCompletion
    dsimp only
    split
    . exact grows_setCompletion
    . exact .of_requests rfl

theorem Grows.idOf (h : c.Grows c') (hid : c.idOf n = some id) : c'.idOf n = some id := by
  unfold Coordinator.idOf at *
  rw [Option.map_eq_some_iff] at *
  rcases hid with ⟨request, hrequest, hid⟩
  rcases h n request hrequest with ⟨request', hrequest', hlater⟩
  exact ⟨request', hrequest', hlater.id.trans hid⟩

theorem Grows.result (h : c.Grows c') (hresult : c.future n = some (.result response))
    : c'.future n = some (.result response) := by
  rw [future_eq_some] at *
  rcases hresult with ⟨request, hrequest, hresult⟩
  rcases h n request hrequest with ⟨request', hrequest', hlater⟩
  refine ⟨request', hrequest', ?_⟩
  cases hlater.future with
  | inl hpending =>
    rw [hpending] at hresult
    cases hresult
  | inr hsame => rw [hsame, hresult]

theorem Grows.future (h : c.Grows c') (hn : c.future n ≠ none)
    : c'.future n ≠ none ∧ (c'.future n = some .pending → c.future n = some .pending) := by
  rcases Option.ne_none_iff_exists'.mp hn with ⟨future, hfuture⟩
  rw [future_eq_some] at hfuture
  rcases hfuture with ⟨request, hrequest, rfl⟩
  rcases h n request hrequest with ⟨request', hrequest', hlater⟩
  have hbefore : c.future n = some request.future := future_eq_some.mpr ⟨request, hrequest, rfl⟩
  have hafter : c'.future n = some request'.future := future_eq_some.mpr ⟨request', hrequest', rfl⟩
  rw [hafter, hbefore]
  refine ⟨nofun, ?_⟩
  intro hpending
  cases hlater.future with
  | inl hold => rw [hold]
  | inr hsame => rw [← hsame, hpending]

theorem Grows.completionDone (h : c.Grows c') (hdone : c.completionDone n) : c'.completionDone n := by
  rw [completionDone_iff] at *
  rcases hdone with ⟨request, hrequest, hdone⟩
  rcases h n request hrequest with ⟨request', hrequest', hlater⟩
  exact ⟨request', hrequest', hlater.completion hdone⟩

end Grows

section Pending

theorem settle_keeps {future : Future (Response β)}
    : (c.settle future n).waits = c.waits ∧ (c.settle future n).delivered = c.delivered ∧
        (c.settle future n).acknowledged = c.acknowledged ∧ (c.settle future n).pending = c.pending ∧
        (c.settle future n).registry = c.registry ∧
        (c.settle future n).completionWaits = c.completionWaits ∧
        (c.settle future n).finished = c.finished ++ [n] := by
  unfold settle
  dsimp only
  split <;> exact ⟨rfl, rfl, rfl, rfl, rfl, rfl, rfl⟩

theorem foldl_settle_keeps {future : Future (Response β)} (ns : List Nat) (c : Coordinator β)
    : let c' := ns.foldl (fun c n => c.settle future n) c
      c'.waits = c.waits ∧ c'.delivered = c.delivered ∧ c'.acknowledged = c.acknowledged ∧
        c'.pending = c.pending ∧ c'.registry = c.registry ∧ c'.completionWaits = c.completionWaits ∧
        c'.finished = c.finished ++ ns := by
  induction ns generalizing c with
  | nil => exact ⟨rfl, rfl, rfl, rfl, rfl, rfl, (List.append_nil _).symm⟩
  | cons n ns ih =>
    have hfirst := @settle_keeps _ c n future
    have hrest := ih (c.settle future n)
    dsimp only at hrest ⊢
    rw [List.foldl_cons]
    refine ⟨hrest.1.trans hfirst.1, hrest.2.1.trans hfirst.2.1, hrest.2.2.1.trans hfirst.2.2.1,
      hrest.2.2.2.1.trans hfirst.2.2.2.1, hrest.2.2.2.2.1.trans hfirst.2.2.2.2.1,
      hrest.2.2.2.2.2.1.trans hfirst.2.2.2.2.2.1, ?_⟩
    rw [hrest.2.2.2.2.2.2, hfirst.2.2.2.2.2.2, List.append_assoc]
    rfl

theorem settled_pending (future : Future (Response β))
    : (c.settled n hitlType future).1.pending = c.pending := by
  unfold settled
  split <;> rfl

def Drops (c : Coordinator β) (id : String) : Request β → Prop
  | .prepareRequest id' => id = id'
  | .persisted call ok => ok = false ∧ c.preparing[call]? = some id
  | .timeoutMarked call ok => ok = true ∧ ∃ n, c.waits[call]? = some (.expired n) ∧ c.idOf n = some id
  | .completedMarked call ok => ok = true ∧ c.completing[call]? = some id
  | .cancelRequestIfPending id' => id = id' ∧ id ≠ ""
  | .cancelAll _ => True
  | _ => False

theorem pending_step (h : (c.step request).1.pending.get id = some n)
    : (¬ c.Drops id request ∧ c.pending.get id = some n) ∨
        (request = .prepareRequest id ∧ n = c.requests.length) := by
  have herase : ∀ id', (c.pending.erase id').get id = some n → id ≠ id' ∧ c.pending.get id = some n := by
    intro id' hget
    rw [Dict.get_erase] at hget
    split at hget
    . cases hget
    . next hne => exact ⟨hne, hget⟩
  cases request with
  | prepareRequest id' =>
    have h : (c.pending.set id' c.requests.length).get id = some n := h
    rw [Dict.get_set] at h
    split at h
    . next heq =>
      cases h
      right
      rw [heq]
      exact ⟨rfl, rfl⟩
    . next hne => exact .inl ⟨hne, h⟩
  | persisted call ok =>
    left
    unfold step persisted at h
    unfold Drops
    dsimp only at h ⊢
    split at h
    . next id' hcall =>
      rw [hcall]
      split at h
      . next hok => exact ⟨by simp [hok], h⟩
      . rcases herase id' h with ⟨hne, hget⟩
        exact ⟨fun hdrops => hne (Option.some.inj hdrops.2).symm, hget⟩
    . next hcall =>
      rw [hcall]
      refine ⟨?_, h⟩
      intro hdrops
      cases hdrops.2
  | waitForResponse id' hitlType =>
    refine .inl ⟨False.elim, ?_⟩
    unfold step waitForResponse at h
    dsimp only at h
    split at h
    . exact h
    . split at h
      . exact h
      . exact h
      . dsimp only at h
        rw [settled_pending] at h
        exact h
  | wake call =>
    refine .inl ⟨False.elim, ?_⟩
    unfold step wake at h
    dsimp only at h
    split at h
    . split at h
      . exact h
      . exact h
      . dsimp only at h
        rw [settled_pending] at h
        exact h
    . exact h
  | expire call =>
    refine .inl ⟨False.elim, ?_⟩
    unfold step expire at h
    dsimp only at h
    split at h
    . split at h <;> exact h
    . exact h
  | timeoutMarked call ok =>
    left
    unfold step timeoutMarked at h
    unfold Drops
    dsimp only at h ⊢
    split at h
    . next m hcall =>
      unfold idOf
      rw [hcall]
      split at h
      . next request hrequest =>
        split at h
        . rcases herase request.requestId h with ⟨hne, hget⟩
          refine ⟨?_, hget⟩
          rintro ⟨_, m', ⟨rfl⟩, hid⟩
          rw [hrequest] at hid
          exact hne (Option.some.inj hid).symm
        . next hok => exact ⟨fun hdrops => hok hdrops.1, h⟩
      . next hrequest =>
        refine ⟨?_, h⟩
        rintro ⟨_, m', ⟨rfl⟩, hid⟩
        rw [hrequest] at hid
        cases hid
    . next hcall =>
      refine ⟨?_, h⟩
      rintro ⟨_, m, hcall', _⟩
      exact hcall m hcall'
  | resolve id' response accepted =>
    refine .inl ⟨False.elim, ?_⟩
    unfold step resolve at h
    dsimp only at h
    split at h
    . exact h
    . split at h
      . split at h <;> exact h
      . split at h <;> exact h
  | completeRequest id' => exact .inl ⟨False.elim, h⟩
  | completedMarked call ok =>
    left
    unfold step completedMarked at h
    unfold Drops
    dsimp only at h ⊢
    split at h
    . next hcall =>
      rw [hcall]
      refine ⟨?_, h⟩
      intro hdrops
      cases hdrops.2
    . next id' hcall =>
      rw [hcall]
      have hcases : (ok = true ∧ (c.pending.erase id').get id = some n) ∨
          (ok = false ∧ c.pending.get id = some n) := by
        split at h
        . split at h
          . next hok => exact .inl ⟨hok, h⟩
          . next hok => exact .inr ⟨by simpa using hok, h⟩
        . split at h
          . next hok => exact .inl ⟨hok, h⟩
          . next hok => exact .inr ⟨by simpa using hok, h⟩
      cases hcases with
      | inl herased =>
        rcases herase id' herased.2 with ⟨hne, hget⟩
        exact ⟨fun hdrops => hne (Option.some.inj hdrops.2).symm, hget⟩
      | inr hkept =>
        refine ⟨?_, hkept.2⟩
        rintro ⟨hok, _⟩
        rw [hkept.1] at hok
        cases hok
  | cancelRequestIfPending id' =>
    left
    unfold step cancelRequestIfPending at h
    unfold Drops
    dsimp only at h ⊢
    split at h
    . next hempty =>
      refine ⟨?_, h⟩
      rintro ⟨rfl, hne⟩
      exact hne hempty
    . have hget : (c.pending.erase id').get id = some n := by
        split at h
        . exact h
        . rw [settle_keeps.2.2.2.1] at h
          exact h
      rcases herase id' hget with ⟨hne, hget⟩
      exact ⟨fun hdrops => hne hdrops.1, hget⟩
  | cancelAll reason =>
    have h : (Dict.empty : Dict String Nat).get id = some n := h
    rw [Dict.get_empty] at h
    cases h
  | waitForCompletion id' timed =>
    refine .inl ⟨False.elim, ?_⟩
    unfold step waitForCompletion at h
    dsimp only at h
    split at h
    . exact h
    . split at h <;> exact h
  | expireCompletion call =>
    refine .inl ⟨False.elim, ?_⟩
    unfold step expireCompletion at h
    dsimp only at h
    split at h <;> exact h

def Named (c : Coordinator β) : Prop :=
  ∀ id n, c.pending.get id = some n → c.idOf n = some id

theorem named_start : ({} : Coordinator β).Named := by
  intro id n hget
  rw [Dict.get_empty] at hget
  cases hget

theorem named_step (h : c.Named) : (c.step request).1.Named := by
  intro id n hget
  cases pending_step hget with
  | inl hold => exact grows_step.idOf (h id n hold.2)
  | inr hnew =>
    rcases hnew with ⟨rfl, rfl⟩
    unfold step prepareRequest idOf
    simp

theorem Named.id_eq (h : c.Named) {id' : String} (hid : c.pending.get id = some n)
    (hid' : c.pending.get id' = some n)
    : id = id' := by
  have heq := (h id n hid).symm.trans (h id' n hid')
  cases heq
  rfl

theorem Named.lt_length (h : c.Named) (hid : c.pending.get id = some n) : n < c.requests.length := by
  have hidOf := h id n hid
  by_contra hlt
  unfold idOf at hidOf
  rw [List.getElem?_eq_none (Nat.le_of_not_lt hlt)] at hidOf
  cases hidOf

end Pending

section Attended

def Attended (c : Coordinator β) : Prop :=
  ∀ wait ∈ c.waits, ∀ n, wait.about = some n →
    c.future n ≠ none ∧ (c.future n = some .pending → ∃ hitlType, wait = .waiting n hitlType)

theorem Attended.mono (h : c.Attended) (hgrows : c.Grows c')
    (hwaits : ∀ wait ∈ c'.waits, wait ∈ c.waits ∨ ∀ n, wait.about = some n →
      c'.future n ≠ none ∧ (c'.future n = some .pending → ∃ hitlType, wait = .waiting n hitlType))
    : c'.Attended := by
  intro wait hwait n habout
  cases hwaits wait hwait with
  | inl hold =>
    have hbefore := h wait hold n habout
    have hafter := hgrows.future hbefore.1
    exact ⟨hafter.1, fun hpending => hbefore.2 (hafter.2 hpending)⟩
  | inr hnew => apply hnew n habout

theorem Attended.same (h : c.Attended) (hgrows : c.Grows c') (hwaits : c'.waits = c.waits)
    : c'.Attended := by
  apply h.mono hgrows
  rw [hwaits]
  intro wait hwait
  exact .inl hwait

theorem Attended.setWait {wait : Wait β} (h : c.Attended) (hgrows : c.Grows c')
    (hwaits : c'.waits = c.waits.set call wait) (habout : wait.about = some n)
    (hdone : ∃ future, c'.future n = some future ∧ future ≠ .pending)
    : c'.Attended := by
  apply h.mono hgrows
  rw [hwaits]
  intro wait' hwait'
  cases List.mem_or_eq_of_mem_set hwait' with
  | inl hold => exact .inl hold
  | inr hnew =>
    right
    intro m hm
    rw [hnew, habout] at hm
    cases hm
    rcases hdone with ⟨future, hfuture, hne⟩
    rw [hfuture]
    refine ⟨nofun, ?_⟩
    intro heq
    cases heq
    exact absurd rfl hne

theorem Attended.addWait {wait : Wait β} (h : c.Attended) (hgrows : c.Grows c')
    (hwaits : c'.waits = c.waits ++ [wait])
    (hnew : ∀ n, wait.about = some n →
      c'.future n ≠ none ∧ (c'.future n = some .pending → ∃ hitlType, wait = .waiting n hitlType))
    : c'.Attended := by
  apply h.mono hgrows
  rw [hwaits]
  intro wait' hwait'
  rw [List.mem_append, List.mem_singleton] at hwait'
  cases hwait' with
  | inl hold => exact .inl hold
  | inr heq =>
    right
    rw [heq]
    exact hnew

theorem attended_waitForResponse (h : c.Attended) : (c.waitForResponse id hitlType).Attended := by
  unfold waitForResponse
  split
  . exact h.addWait (.of_requests rfl) rfl nofun
  . next n _ =>
    split
    . exact h
    . next hfuture =>
      refine h.addWait (.of_requests rfl) rfl ?_
      rintro m ⟨rfl⟩
      refine ⟨?_, fun _ => ⟨hitlType, rfl⟩⟩
      show c.future n ≠ none
      rw [hfuture]
      nofun
    . next future hpending hfuture =>
      have hkeeps := @settled_keeps _ c n hitlType future
      dsimp only
      refine h.addWait (.of_requests hkeeps.1) (congrArg (· ++ _) hkeeps.2) ?_
      rintro m ⟨rfl⟩
      show (c.settled n hitlType future).1.future n ≠ none ∧
        ((c.settled n hitlType future).1.future n = some .pending → _)
      rw [future_settled, hfuture]
      refine ⟨nofun, ?_⟩
      rintro ⟨rfl⟩
      exact absurd rfl hpending

theorem attended_wake (h : c.Attended) : (c.wake call).Attended := by
  unfold wake
  split
  . next n hitlType _ =>
    split
    . exact h
    . exact h
    . next future hpending hfuture =>
      have hkeeps := @settled_keeps _ c n hitlType future
      refine @Attended.setWait _ c _ n call (.ended (some n) (c.settled n hitlType future).2) h
        (.of_requests hkeeps.1) ?_ rfl ⟨future, ?_, ?_⟩
      . dsimp only
        rw [hkeeps.2]
      . show (c.settled n hitlType future).1.future n = some future
        rw [future_settled, hfuture]
      . intro heq
        exact hpending heq
  . exact h

theorem attended_expire (h : c.Attended) : (c.expire call).Attended := by
  unfold expire
  split
  . next n hitlType hcall =>
    dsimp only
    have hknown := (h _ (List.mem_of_getElem? hcall) n rfl).1
    split
    . next hpending =>
      refine @Attended.setWait _ c _ n call (.expired n) h ((grows_setFuture hpending).of_later rfl) rfl
        rfl ⟨.cancelled, ?_, nofun⟩
      rw [isPending_iff] at hpending
      rw [future_setFuture, if_pos rfl, hpending]
      rfl
    . next hdone =>
      refine @Attended.setWait _ c _ n call (.expired n) h (.of_requests rfl) rfl rfl ?_
      rcases Option.ne_none_iff_exists'.mp hknown with ⟨future, hfuture⟩
      refine ⟨future, hfuture, ?_⟩
      intro heq
      apply hdone
      rw [isPending_iff, ← heq]
      exact hfuture
  . exact h

theorem attended_timeoutMarked {ok : Bool} (h : c.Attended) : (c.timeoutMarked call ok).Attended := by
  unfold timeoutMarked
  split
  . next n hcall =>
    have hafter := h _ (List.mem_of_getElem? hcall) n rfl
    rcases Option.ne_none_iff_exists'.mp hafter.1 with ⟨future, hfuture⟩
    have hdone : future ≠ .pending := by
      intro heq
      rw [heq] at hfuture
      rcases hafter.2 hfuture with ⟨_, habsurd⟩
      cases habsurd
    dsimp only
    split
    . split
      . exact h.setWait (.of_requests rfl) rfl rfl ⟨future, hfuture, hdone⟩
      . exact h.setWait (.of_requests rfl) rfl rfl ⟨future, hfuture, hdone⟩
    . exact h.setWait (.of_requests rfl) rfl rfl ⟨future, hfuture, hdone⟩
  . exact h

theorem attended_step (h : c.Attended) : (c.step request).1.Attended := by
  have hgrows := @grows_step _ c request
  cases request with
  | prepareRequest id => exact h.same hgrows rfl
  | persisted call ok =>
    apply h.same hgrows
    unfold step persisted
    dsimp only
    split
    . split <;> rfl
    . rfl
  | waitForResponse id hitlType => exact attended_waitForResponse h
  | wake call => exact attended_wake h
  | expire call => exact attended_expire h
  | timeoutMarked call ok => exact attended_timeoutMarked h
  | resolve id response accepted =>
    apply h.same hgrows
    unfold step resolve
    dsimp only
    split
    . rfl
    . split
      . split <;> rfl
      . split <;> rfl
  | completeRequest id => exact h.same hgrows rfl
  | completedMarked call ok =>
    apply h.same hgrows
    unfold step completedMarked
    dsimp only
    split
    . rfl
    . split
      . split <;> rfl
      . split <;> rfl
  | cancelRequestIfPending id =>
    apply h.same hgrows
    unfold step cancelRequestIfPending
    dsimp only
    split
    . rfl
    . split
      . rfl
      . rw [settle_keeps.1]
        rfl
  | cancelAll reason => exact h.same hgrows (foldl_settle_keeps c.pending.values c).1
  | waitForCompletion id timed =>
    apply h.same hgrows
    unfold step waitForCompletion
    dsimp only
    split
    . rfl
    . split <;> rfl
  | expireCompletion call =>
    apply h.same hgrows
    unfold step expireCompletion
    dsimp only
    split <;> rfl

end Attended

end Coordinator
end Hitl
end Agent
end MemStack
