import MemStack.Agent.Hitl.Lemmas

/-!
This module contains just when every request that is over leaves both maps and releases who waits for it.
-/

namespace MemStack
namespace Agent
namespace Hitl
namespace Coordinator

variable {β : Type} {c c' : Coordinator β} {id : String} {n m call : Nat} {hitlType : HITLType}
  {response : Response β} {request : Request β}

section Registered

def Registered (c : Coordinator β) : Prop :=
  ∀ id, id ∈ c.registry ↔ ∃ n, c.pending.get id = some n

theorem Registered.same (h : c.Registered) (hregistry : c'.registry = c.registry)
    (hpending : c'.pending = c.pending)
    : c'.Registered := by
  unfold Registered
  rw [hregistry, hpending]
  exact h

theorem Registered.cleanup (h : c.Registered) : (c.cleanupPendingRequest id).Registered := by
  intro id'
  unfold cleanupPendingRequest
  dsimp only
  rw [List.mem_filter, h id', Dict.get_erase]
  by_cases heq : id' = id
  . simp [heq]
  . simp [heq]

theorem registered_prepareRequest (h : c.Registered) : (c.prepareRequest id).Registered := by
  intro id'
  unfold prepareRequest
  dsimp only
  rw [List.mem_insert_iff, h id', Dict.get_set]
  by_cases heq : id' = id
  . simp [heq]
  . simp [heq]

theorem registered_cancelAll {reason : β} (h : c.Registered) : (c.cancelAll reason).Registered := by
  rcases @foldl_settle_keeps _ (.result { cancelled := true, data := reason }) c.pending.values c with
    ⟨_, _, _, _, hregistry, _, _⟩
  intro id
  unfold cancelAll
  dsimp only
  rw [hregistry, List.mem_filter, h id, Dict.get_empty]
  constructor
  . rintro ⟨hentry, hnot⟩
    rw [decide_eq_true_eq, Dict.mem_keys] at hnot
    exact absurd hentry hnot
  . rintro ⟨n, hget⟩
    cases hget

theorem settled_registry (future : Future (Response β))
    : (c.settled n hitlType future).1.registry = c.registry := by
  unfold settled
  split <;> rfl

theorem registered_step (h : c.Registered) : (c.step request).1.Registered := by
  cases request with
  | prepareRequest id => exact registered_prepareRequest h
  | persisted call ok =>
    unfold step persisted
    dsimp only
    split
    . split
      . exact h.same rfl rfl
      . exact h.cleanup.same rfl rfl
    . exact h
  | waitForResponse id hitlType =>
    unfold step waitForResponse
    dsimp only
    split
    . exact h.same rfl rfl
    . split
      . exact h
      . exact h.same rfl rfl
      . exact h.same (settled_registry _) (settled_pending _)
  | wake call =>
    unfold step wake
    dsimp only
    split
    . split
      . exact h
      . exact h
      . exact h.same (settled_registry _) (settled_pending _)
    . exact h
  | expire call =>
    unfold step expire
    dsimp only
    split
    . split <;> exact h.same rfl rfl
    . exact h
  | timeoutMarked call ok =>
    unfold step timeoutMarked
    dsimp only
    split
    . split
      . split
        . exact h.cleanup.same rfl rfl
        . exact h.same rfl rfl
      . exact h.same rfl rfl
    . exact h
  | resolve id response accepted =>
    unfold step resolve
    dsimp only
    split
    . exact h
    . split
      . split
        . exact h.same rfl rfl
        . exact h
      . split
        . exact h
        . exact h.same rfl rfl
  | completeRequest id => exact h.same rfl rfl
  | completedMarked call ok =>
    unfold step completedMarked
    dsimp only
    split
    . exact h
    . split
      . split
        . exact h.cleanup.same rfl rfl
        . exact h.same rfl rfl
      . split
        . exact h.cleanup.same rfl rfl
        . exact h.same rfl rfl
  | cancelRequestIfPending id =>
    unfold step cancelRequestIfPending
    dsimp only
    split
    . exact h
    . split
      . exact h.cleanup
      . exact h.cleanup.same settle_keeps.2.2.2.2.1 settle_keeps.2.2.2.1
  | cancelAll reason => exact registered_cancelAll h
  | waitForCompletion id timed =>
    unfold step waitForCompletion
    dsimp only
    split
    . exact h
    . split
      . exact h
      . exact h.same rfl rfl
  | expireCompletion call =>
    unfold step expireCompletion
    dsimp only
    split
    . exact h.same rfl rfl
    . exact h

end Registered

section Property

structure Released (c : Coordinator β) : Prop where
  registered : c.Registered
  gone : ∀ n ∈ c.finished, ∀ id, c.pending.get id ≠ some n
  released : ∀ n ∈ c.finished, (n, false) ∈ c.completionWaits → c.completionDone n

def Raises (c : Coordinator β) (n : Nat) (hitlType : HITLType) : Prop :=
  c.future n = some .cancelled ∨
    ∃ response, c.future n = some (.result response) ∧ (received hitlType response).raises = true

def Blocks (c : Coordinator β) (n : Nat) : Prop :=
  (n, false) ∈ c.completionWaits ∧ c.completionDone n = false

/-
The step leaves a request behind that is over: a timeout or a completion could not be recorded, a wait raised
for another reason than its own timer, or a wait raised while somebody waits for the completion.
-/
inductive Leaks (c : Coordinator β) : Request β → Prop where
  | unrecorded (call n : Nat) (id : String) (hwait : c.waits[call]? = some (.expired n))
      (hentry : c.pending.get id = some n)
      : Leaks c (.timeoutMarked call false)
  | uncompleted (call n : Nat) (id : String) (hcall : c.completing[call]? = some id)
      (hentry : c.pending.get id = some n)
      : Leaks c (.completedMarked call false)
  | raised (call n : Nat) (hitlType : HITLType) (id : String)
      (hwait : c.waits[call]? = some (.waiting n hitlType)) (hraises : c.Raises n hitlType)
      (hentry : c.pending.get id = some n)
      : Leaks c (.wake call)
  | raisedAtOnce (id : String) (n : Nat) (hitlType : HITLType) (hentry : c.pending.get id = some n)
      (hraises : c.Raises n hitlType)
      : Leaks c (.waitForResponse id hitlType)
  | timedOut (call n : Nat) (ok : Bool) (hwait : c.waits[call]? = some (.expired n)) (hblocks : c.Blocks n)
      : Leaks c (.timeoutMarked call ok)
  | broken (call n : Nat) (hitlType : HITLType) (hwait : c.waits[call]? = some (.waiting n hitlType))
      (hraises : c.Raises n hitlType) (hblocks : c.Blocks n)
      : Leaks c (.wake call)

def Finishes (c : Coordinator β) (n : Nat) : Request β → Prop
  | .waitForResponse id hitlType => c.pending.get id = some n ∧ c.Raises n hitlType
  | .wake call => ∃ hitlType, c.waits[call]? = some (.waiting n hitlType) ∧ c.Raises n hitlType
  | .timeoutMarked call _ => c.waits[call]? = some (.expired n)
  | .completedMarked call _ => ∃ id, c.completing[call]? = some id ∧ c.pending.get id = some n
  | .cancelRequestIfPending id => id ≠ "" ∧ c.pending.get id = some n
  | .cancelAll _ => ∃ id, c.pending.get id = some n
  | _ => False

end Property

section Finished

theorem settled_finished {future : Future (Response β)} (hfuture : c.future n = some future)
    (hdone : future ≠ .pending)
    : m ∈ (c.settled n hitlType future).1.finished
        ↔
      m ∈ c.finished ∨ (m = n ∧ c.Raises n hitlType) := by
  unfold settled Raises
  rw [hfuture]
  cases future with
  | pending => exact absurd rfl hdone
  | result response =>
    dsimp only
    split
    . next hraises => simp [hraises]
    . next hraises => simp [hraises]
  | cancelled => simp

theorem finished_waitForResponse
    : n ∈ (c.waitForResponse id hitlType).finished
        ↔
      n ∈ c.finished ∨ (c.pending.get id = some n ∧ c.Raises n hitlType) := by
  unfold waitForResponse
  split
  . next hget => simp [hget]
  . next m hget =>
    have hiff : (c.pending.get id = some n ∧ c.Raises n hitlType) ↔ n = m ∧ c.Raises m hitlType := by
      rw [hget]
      constructor
      . rintro ⟨⟨rfl⟩, hraises⟩
        exact ⟨rfl, hraises⟩
      . rintro ⟨rfl, hraises⟩
        exact ⟨rfl, hraises⟩
    rw [hiff]
    split
    . next hfuture => simp [Raises, hfuture]
    . next hfuture => simp [Raises, hfuture]
    . next future hpending hfuture =>
      dsimp only
      rw [settled_finished hfuture hpending]

theorem finished_wake
    : n ∈ (c.wake call).finished
        ↔
      n ∈ c.finished ∨ ∃ hitlType, c.waits[call]? = some (.waiting n hitlType) ∧ c.Raises n hitlType := by
  unfold wake
  split
  . next m hitlType hcall =>
    have hiff : (∃ hitlType', c.waits[call]? = some (.waiting n hitlType') ∧ c.Raises n hitlType') ↔
        n = m ∧ c.Raises m hitlType := by
      rw [hcall]
      constructor
      . rintro ⟨hitlType', ⟨rfl⟩, hraises⟩
        exact ⟨rfl, hraises⟩
      . rintro ⟨rfl, hraises⟩
        exact ⟨hitlType, rfl, hraises⟩
    rw [hiff]
    split
    . next hfuture => simp [Raises, hfuture]
    . next hfuture => simp [Raises, hfuture]
    . next future hpending hfuture =>
      dsimp only
      rw [settled_finished hfuture hpending]
  . next hcall =>
    rw [or_iff_left]
    rintro ⟨hitlType, hcall', _⟩
    exact hcall n hitlType hcall'

theorem finished_timeoutMarked {ok : Bool}
    : n ∈ (c.timeoutMarked call ok).finished ↔ n ∈ c.finished ∨ c.waits[call]? = some (.expired n) := by
  unfold timeoutMarked
  split
  . next m hcall =>
    have hiff : c.waits[call]? = some (.expired n) ↔ n = m := by
      rw [hcall]
      simp [eq_comm]
    have hmem : n ∈ c.finished ∨ n = m ↔ n ∈ c.finished ++ [m] := by
      rw [List.mem_append, List.mem_singleton]
    rw [hiff, hmem]
    dsimp only
    split
    . split <;> rfl
    . rfl
  . next hcall => rw [or_iff_left (hcall n)]

theorem finished_completedMarked {ok : Bool}
    : n ∈ (c.completedMarked call ok).finished
        ↔
      n ∈ c.finished ∨ ∃ id, c.completing[call]? = some id ∧ c.pending.get id = some n := by
  unfold completedMarked
  split
  . next hcall => simp [hcall]
  . next id hcall =>
    have hiff : (∃ id', c.completing[call]? = some id' ∧ c.pending.get id' = some n) ↔
        c.pending.get id = some n := by
      rw [hcall]
      simp
    rw [hiff]
    dsimp only
    split
    . next hget =>
      have hnone : ¬(none : Option Nat) = some n := by simp
      rw [hget, or_iff_left hnone]
      split <;> rfl
    . next m hget =>
      have hmem : n ∈ c.finished ∨ c.pending.get id = some n ↔ n ∈ c.finished ++ [m] := by
        rw [hget, List.mem_append, List.mem_singleton, Option.some.injEq, eq_comm]
      rw [hmem]
      split <;> rfl

theorem finished_cancelRequestIfPending
    : n ∈ (c.cancelRequestIfPending id).finished
        ↔
      n ∈ c.finished ∨ (id ≠ "" ∧ c.pending.get id = some n) := by
  unfold cancelRequestIfPending
  split
  . next hempty => simp [hempty]
  . next hne =>
    split
    . next hget =>
      rw [hget, or_iff_left]
      . rfl
      . rintro ⟨_, ⟨⟩⟩
    . next m hget =>
      rw [hget, settle_keeps.2.2.2.2.2.2, List.mem_append, List.mem_singleton]
      apply or_congr Iff.rfl
      constructor
      . rintro rfl
        exact ⟨hne, rfl⟩
      . rintro ⟨_, ⟨rfl⟩⟩
        rfl

theorem finished_step
    : n ∈ (c.step request).1.finished ↔ n ∈ c.finished ∨ c.Finishes n request := by
  cases request with
  | waitForResponse id hitlType => exact finished_waitForResponse
  | wake call => exact finished_wake
  | timeoutMarked call ok => exact finished_timeoutMarked
  | completedMarked call ok => exact finished_completedMarked
  | cancelRequestIfPending id => exact finished_cancelRequestIfPending
  | cancelAll reason =>
    rcases @foldl_settle_keeps _ (.result { cancelled := true, data := reason }) c.pending.values c with
      ⟨_, _, _, _, _, _, hfinished⟩
    show n ∈ (c.cancelAll reason).finished ↔ n ∈ c.finished ∨ ∃ id, c.pending.get id = some n
    unfold cancelAll
    dsimp only
    rw [hfinished, List.mem_append, Dict.mem_values]
  | prepareRequest id =>
    rw [or_iff_left nofun]
    rfl
  | persisted call ok =>
    rw [or_iff_left nofun]
    unfold step persisted
    dsimp only
    split
    . split <;> rfl
    . rfl
  | expire call =>
    rw [or_iff_left nofun]
    unfold step expire
    dsimp only
    split
    . split <;> rfl
    . rfl
  | resolve id response accepted =>
    rw [or_iff_left nofun]
    unfold step resolve
    dsimp only
    split
    . rfl
    . split
      . split <;> rfl
      . split <;> rfl
  | completeRequest id =>
    rw [or_iff_left nofun]
    rfl
  | waitForCompletion id timed =>
    rw [or_iff_left nofun]
    unfold step waitForCompletion
    dsimp only
    split
    . rfl
    . split <;> rfl
  | expireCompletion call =>
    rw [or_iff_left nofun]
    unfold step expireCompletion
    dsimp only
    split <;> rfl

end Finished

section Step

structure Known (c : Coordinator β) : Prop where
  finished : ∀ n ∈ c.finished, n < c.requests.length
  named : c.Named
  attended : c.Attended

theorem Grows.length_le (h : c.Grows c') : c.requests.length ≤ c'.requests.length := by
  by_contra hlt
  have hn : c'.requests.length < c.requests.length := Nat.lt_of_not_le hlt
  rcases h _ _ (List.getElem?_eq_getElem hn) with ⟨request', hrequest', _⟩
  rw [List.getElem?_eq_none (Nat.le_refl _)] at hrequest'
  cases hrequest'

theorem lt_length_of_future (h : c.future n ≠ none) : n < c.requests.length := by
  by_contra hlt
  apply h
  unfold Coordinator.future
  rw [List.getElem?_eq_none (Nat.le_of_not_lt hlt)]
  rfl

theorem Known.lt_length (h : c.Known) (hfinishes : c.Finishes n request) : n < c.requests.length := by
  have hwaits : ∀ wait ∈ c.waits, wait.about = some n → n < c.requests.length := by
    intro wait hwait habout
    apply lt_length_of_future (h.attended wait hwait n habout).1
  cases request with
  | waitForResponse id hitlType => exact h.named.lt_length hfinishes.1
  | wake call =>
    rcases hfinishes with ⟨hitlType, hcall, _⟩
    exact hwaits _ (List.mem_of_getElem? hcall) rfl
  | timeoutMarked call ok => exact hwaits _ (List.mem_of_getElem? hfinishes) rfl
  | completedMarked call ok =>
    rcases hfinishes with ⟨id, _, hget⟩
    exact h.named.lt_length hget
  | cancelRequestIfPending id => exact h.named.lt_length hfinishes.2
  | cancelAll reason =>
    rcases hfinishes with ⟨id, hget⟩
    exact h.named.lt_length hget
  | _ => cases hfinishes

theorem known_step (h : c.Known) : (c.step request).1.Known := by
  refine ⟨?_, named_step h.named, attended_step h.attended⟩
  intro n hn
  apply Nat.lt_of_lt_of_le _ grows_step.length_le
  cases finished_step.mp hn with
  | inl hold => exact h.finished n hold
  | inr hnew => exact h.lt_length hnew

theorem settled_completionWaits (future : Future (Response β))
    : (c.settled n hitlType future).1.completionWaits = c.completionWaits := by
  unfold settled
  split <;> rfl

theorem completionWaits_keeps (hrequest : ∀ id timed, request ≠ .waitForCompletion id timed)
    : (c.step request).1.completionWaits = c.completionWaits := by
  cases request with
  | prepareRequest id => rfl
  | persisted call ok =>
    unfold step persisted
    dsimp only
    split
    . split <;> rfl
    . rfl
  | waitForResponse id hitlType =>
    unfold step waitForResponse
    dsimp only
    split
    . rfl
    . split
      . rfl
      . rfl
      . apply settled_completionWaits
  | wake call =>
    unfold step wake
    dsimp only
    split
    . split
      . rfl
      . rfl
      . apply settled_completionWaits
    . rfl
  | expire call =>
    unfold step expire
    dsimp only
    split
    . split <;> rfl
    . rfl
  | timeoutMarked call ok =>
    unfold step timeoutMarked
    dsimp only
    split
    . split
      . split <;> rfl
      . rfl
    . rfl
  | resolve id response accepted =>
    unfold step resolve
    dsimp only
    split
    . rfl
    . split
      . split <;> rfl
      . split <;> rfl
  | completeRequest id => rfl
  | completedMarked call ok =>
    unfold step completedMarked
    dsimp only
    split
    . rfl
    . split
      . split <;> rfl
      . split <;> rfl
  | cancelRequestIfPending id =>
    unfold step cancelRequestIfPending
    dsimp only
    split
    . rfl
    . split
      . rfl
      . apply settle_keeps.2.2.2.2.2.1
  | cancelAll reason => exact (foldl_settle_keeps c.pending.values c).2.2.2.2.2.1
  | waitForCompletion id timed => exact absurd rfl (hrequest id timed)
  | expireCompletion call =>
    unfold step expireCompletion
    dsimp only
    split <;> rfl

theorem completionWaits_step {timed : Bool} (h : (n, timed) ∈ (c.step request).1.completionWaits)
    : (n, timed) ∈ c.completionWaits ∨
        ∃ id, request = .waitForCompletion id timed ∧ c.pending.get id = some n := by
  cases request with
  | waitForCompletion id timed' =>
    unfold step waitForCompletion at h
    dsimp only at h
    split at h
    . exact .inl h
    . next m hget =>
      split at h
      . exact .inl h
      . rw [List.mem_append, List.mem_singleton] at h
        cases h with
        | inl hold => exact .inl hold
        | inr hnew =>
          cases hnew
          exact .inr ⟨id, rfl, hget⟩
  | _ =>
    rw [completionWaits_keeps (by rintro _ _ ⟨⟩)] at h
    exact .inl h

theorem drops_of_finishes (hnamed : c.Named) (hfinishes : c.Finishes n request)
    (hloses : ¬ c.Leaks request) (hget : c.pending.get id = some n)
    : c.Drops id request := by
  cases request with
  | waitForResponse id' hitlType =>
    exact absurd (.raisedAtOnce id' n hitlType hfinishes.1 hfinishes.2) hloses
  | wake call =>
    rcases hfinishes with ⟨hitlType, hcall, hraises⟩
    exact absurd (.raised call n hitlType id hcall hraises hget) hloses
  | timeoutMarked call ok =>
    cases ok with
    | true => exact ⟨rfl, n, hfinishes, hnamed id n hget⟩
    | false => exact absurd (.unrecorded call n id hfinishes hget) hloses
  | completedMarked call ok =>
    rcases hfinishes with ⟨id', hcall, hget'⟩
    cases ok with
    | true =>
      rw [hnamed.id_eq hget hget']
      exact ⟨rfl, hcall⟩
    | false => exact absurd (.uncompleted call n id' hcall hget') hloses
  | cancelRequestIfPending id' =>
    rw [hnamed.id_eq hget hfinishes.2]
    exact ⟨rfl, hfinishes.1⟩
  | cancelAll reason => trivial
  | _ => cases hfinishes

theorem gone_step (h : c.Released) (hknown : c.Known) (hleaks : ¬ c.Leaks request)
    : ∀ n ∈ (c.step request).1.finished, ∀ id, (c.step request).1.pending.get id ≠ some n := by
  intro n hn id hget
  have hlt : n < c.requests.length := by
    cases finished_step.mp hn with
    | inl hold => exact hknown.finished n hold
    | inr hnew => exact hknown.lt_length hnew
  cases pending_step hget with
  | inr hfresh => exact absurd hlt (Nat.not_lt.mpr (Nat.le_of_eq hfresh.2.symm))
  | inl hkept =>
    cases finished_step.mp hn with
    | inl hold => exact h.gone n hold id hkept.2
    | inr hnew => exact hkept.1 (drops_of_finishes hknown.named hnew hleaks hkept.2)

theorem settle_done {future : Future (Response β)} (hn : n < c.requests.length)
    : (c.settle future n).completionDone n := by
  unfold settle
  dsimp only
  split
  . next hpending =>
    apply (@completionDone_setCompletion _ (c.setFuture n future) n)
    apply Nat.lt_of_lt_of_le hn (grows_setFuture hpending).length_le
  . exact completionDone_setCompletion hn

theorem foldl_settle_done {future : Future (Response β)} {ns : List Nat} (hmem : n ∈ ns)
    (hn : n < c.requests.length)
    : (ns.foldl (fun c n => c.settle future n) c).completionDone n := by
  induction ns generalizing c with
  | nil => cases hmem
  | cons m ns ih =>
    rw [List.foldl_cons]
    rw [List.mem_cons] at hmem
    rcases hmem with rfl | hmem
    . exact (grows_foldl ns _).completionDone (settle_done hn)
    . exact ih hmem (Nat.lt_of_lt_of_le hn grows_settle.length_le)

theorem done_of_finishes (hknown : c.Known) (hfinishes : c.Finishes n request)
    (hleaks : ¬ c.Leaks request) (hwait : (n, false) ∈ c.completionWaits)
    : (c.step request).1.completionDone n := by
  have hlt := hknown.lt_length hfinishes
  cases request with
  | waitForResponse id hitlType =>
    exact absurd (.raisedAtOnce id n hitlType hfinishes.1 hfinishes.2) hleaks
  | wake call =>
    rcases hfinishes with ⟨hitlType, hcall, hraises⟩
    apply grows_step.completionDone
    by_contra hundone
    exact hleaks (.broken call n hitlType hcall hraises ⟨hwait, by simpa using hundone⟩)
  | timeoutMarked call ok =>
    apply grows_step.completionDone
    by_contra hundone
    exact hleaks (.timedOut call n ok hfinishes ⟨hwait, by simpa using hundone⟩)
  | completedMarked call ok =>
    rcases hfinishes with ⟨id, hcall, hget⟩
    cases ok with
    | true =>
      unfold step completedMarked
      dsimp only
      rw [hcall]
      dsimp only
      rw [hget]
      exact completionDone_setCompletion hlt
    | false => exact absurd (.uncompleted call n id hcall hget) hleaks
  | cancelRequestIfPending id =>
    unfold step cancelRequestIfPending
    dsimp only
    rw [if_neg hfinishes.1, hfinishes.2]
    exact settle_done hlt
  | cancelAll reason => exact foldl_settle_done (Dict.mem_values.mpr hfinishes) hlt
  | _ => cases hfinishes

theorem released_step (h : c.Released) (hknown : c.Known) (hleaks : ¬ c.Leaks request)
    : (c.step request).1.Released := by
  refine ⟨registered_step h.registered, gone_step h hknown hleaks, ?_⟩
  intro n hn hwait
  cases completionWaits_step hwait with
  | inl hbefore =>
    cases finished_step.mp hn with
    | inl hold => exact grows_step.completionDone (h.released n hold hbefore)
    | inr hnew => exact done_of_finishes hknown hnew hleaks hbefore
  | inr hcomes =>
    rcases hcomes with ⟨id, rfl, hget⟩
    cases finished_step.mp hn with
    | inl hold => exact absurd hget (h.gone n hold id)
    | inr hnew => cases hnew

theorem wake_keeps
    : (c.wake call).pending = c.pending ∧ (c.wake call).requests = c.requests := by
  unfold wake
  split
  . split
    . exact ⟨rfl, rfl⟩
    . exact ⟨rfl, rfl⟩
    . exact ⟨settled_pending _, (settled_keeps _).1⟩
  . exact ⟨rfl, rfl⟩

theorem waitForResponse_pending : (c.waitForResponse id hitlType).pending = c.pending := by
  unfold waitForResponse
  split
  . rfl
  . split
    . rfl
    . rfl
    . apply settled_pending

theorem timeoutMarked_keeps {ok : Bool}
    : (ok = false → (c.timeoutMarked call ok).pending = c.pending) ∧
        (c.timeoutMarked call ok).requests = c.requests := by
  unfold timeoutMarked
  split
  . dsimp only
    split
    . split
      . next hok =>
        rw [hok]
        exact ⟨nofun, rfl⟩
      . exact ⟨fun _ => rfl, rfl⟩
    . exact ⟨fun _ => rfl, rfl⟩
  . exact ⟨fun _ => rfl, rfl⟩

theorem completedMarked_pending : (c.completedMarked call false).pending = c.pending := by
  unfold completedMarked
  split
  . rfl
  . dsimp only
    split <;> rfl

theorem not_released_of_entry (hfinishes : c.Finishes n request) (hget : c.pending.get id = some n)
    (hpending : (c.step request).1.pending = c.pending)
    : ¬ (c.step request).1.Released := by
  intro h
  apply h.gone n (finished_step.mpr (.inr hfinishes)) id
  rw [hpending, hget]

theorem not_released_of_blocks (hfinishes : c.Finishes n request) (hblocks : c.Blocks n)
    (hwaits : (c.step request).1.completionWaits = c.completionWaits)
    (hrequests : (c.step request).1.requests = c.requests)
    : ¬ (c.step request).1.Released := by
  intro h
  have hdone := h.released n (finished_step.mpr (.inr hfinishes)) (hwaits ▸ hblocks.1)
  have hundone := hblocks.2
  unfold completionDone at hdone hundone
  rw [hrequests, hundone] at hdone
  cases hdone

theorem not_released_of_leaks (hleaks : c.Leaks request) : ¬ (c.step request).1.Released := by
  cases hleaks with
  | unrecorded call n id hwait hentry =>
    exact not_released_of_entry hwait hentry (timeoutMarked_keeps.1 rfl)
  | uncompleted call n id hcall hentry =>
    exact not_released_of_entry ⟨id, hcall, hentry⟩ hentry completedMarked_pending
  | raised call n hitlType id hwait hraises hentry =>
    exact not_released_of_entry ⟨hitlType, hwait, hraises⟩ hentry wake_keeps.1
  | raisedAtOnce id n hitlType hentry hraises =>
    exact not_released_of_entry ⟨hentry, hraises⟩ hentry waitForResponse_pending
  | timedOut call n ok hwait hblocks =>
    exact not_released_of_blocks hwait hblocks (completionWaits_keeps fun _ _ => nofun) timeoutMarked_keeps.2
  | broken call n hitlType hwait hraises hblocks =>
    exact not_released_of_blocks ⟨hitlType, hwait, hraises⟩ hblocks (completionWaits_keeps fun _ _ => nofun)
      wake_keeps.2

end Step

section Run

theorem released_start : ({} : Coordinator β).Released := by
  refine ⟨?_, nofun, nofun⟩
  intro id
  rw [Dict.get_empty]
  simp

/-
The maps agree, a request that is over is in neither and its waiters are released, just when no timeout and no
completion fails to be recorded while the entry is there, and no wait raises while the entry is there (unless
its own timer ended it) or while somebody waits for the completion.
-/
theorem released_iff (requests : List (Request β))
    : (∀ e ∈ Machine.transcript step {} requests, e.after.Released)
        ↔
      ∀ e ∈ Machine.transcript step {} requests, ¬ e.before.Leaks e.request := by
  apply @Machine.forall_transcript_iff _ _ _ step (fun c request => ¬ c.Leaks request)
    (fun c => c.Released ∧ c.Known)
  . rintro c request ⟨h, hknown⟩
    refine ⟨⟨?_, ?_⟩, ?_⟩
    . intro hreleased hleaks
      exact not_released_of_leaks hleaks hreleased
    . intro hleaks
      exact released_step h hknown hleaks
    . intro hleaks
      exact ⟨released_step h hknown hleaks, known_step hknown⟩
  . exact ⟨released_start, nofun, named_start, nofun⟩

/--
The timeout could not be recorded: the wait raised, and the request stays in both maps.
-/
theorem timeout_unrecorded_stays
    : ¬ ∀ requests : List (Request String),
        ∀ e ∈ Machine.transcript step {} requests, e.after.Released := by
  intro hclaim
  have hlast := hclaim
    [.prepareRequest "r", .persisted 0 true, .waitForResponse "r" .clarification, .expire 0,
      .timeoutMarked 0 false] _ (List.mem_of_mem_getLast? rfl)
  exact hlast.gone 0 (by decide +kernel) "r" (by decide +kernel)

end Run

end Coordinator
end Hitl
end Agent
end MemStack
