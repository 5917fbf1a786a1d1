import MemStack.Llm.RateLimiter

/-!
This module contains what the rate limiter on Redis keeps to: its permits, and the counter that the workers
share.
-/

namespace MemStack
namespace Llm

namespace RedisCall

def holds : RedisCall → Bool
  | .incrRpm => true
  | .expireRpm _ => true
  | .incrConcurrent => true
  | .expireConcurrent => true
  | .acquired => true
  | _ => false

def counted : RedisCall → Bool
  | .expireConcurrent => true
  | .acquired => true
  | .decrementing => true
  | _ => false

def isOver : RedisCall → Bool
  | .released => true
  | .rejected => true
  | .cancelled => true
  | _ => false

-- Where the task of the call may be in the local limiter. `leaks` allows a call that has been cancelled to hold
-- its local context.
def Fits (leaks : Bool) (call : RedisCall) (task : Acquisition) : Prop :=
  match call with
  | .acquiring => task = .queued ∨ task = .sleeping
  | .decrementing => task = .released
  | .released => task = .released
  | .rejected => task = .released
  | .cancelled => task = .cancelled ∨ leaks = true ∧ task = .acquired
  | _ => task = .acquired

end RedisCall

namespace RedisRateLimiter

variable {config : RateLimitConfig} {s : RedisRateLimiter} {call : Nat} {leaks : Bool}
  {calls : List RedisCall} {tasks : List Acquisition} {c : RedisCall} {t : Acquisition}

structure Matched (leaks : Bool) (calls : List RedisCall) (tasks : List Acquisition) : Prop where
  length : calls.length = tasks.length
  fits : ∀ (i : Nat) (c : RedisCall) (t : Acquisition), calls[i]? = some c → tasks[i]? = some t → c.Fits leaks t

theorem Matched.set (h : Matched leaks calls tasks) (hfits : c.Fits leaks t) (i : Nat)
    : Matched leaks (calls.set i c) (tasks.set i t) := by
  refine ⟨by simpa using h.length, ?_⟩
  intro j c' t' hc' ht'
  by_cases heq : i = j
  . subst heq
    have hlt := (List.getElem?_eq_some_iff.mp hc').1
    rw [List.length_set] at hlt
    rw [List.getElem?_set_self hlt] at hc'
    rw [List.getElem?_set_self (by rw [← h.length]; exact hlt)] at ht'
    cases hc'
    cases ht'
    exact hfits
  . rw [List.getElem?_set_ne heq] at hc' ht'
    exact h.fits j c' t' hc' ht'

theorem Matched.task (h : Matched leaks calls tasks) {i : Nat} (hc : calls[i]? = some c)
    : ∃ t, tasks[i]? = some t ∧ c.Fits leaks t := by
  have hlt := (List.getElem?_eq_some_iff.mp hc).1
  rw [h.length] at hlt
  exact ⟨tasks[i], List.getElem?_eq_getElem hlt, h.fits i c _ hc (List.getElem?_eq_getElem hlt)⟩

theorem Matched.setCall (h : Matched leaks calls tasks) {i : Nat} (ht : tasks[i]? = some t) (hfits : c.Fits leaks t)
    : Matched leaks (calls.set i c) tasks := by
  have hset := h.set hfits i
  obtain ⟨hlt, hget⟩ := List.getElem?_eq_some_iff.mp ht
  rwa [← hget, List.set_getElem_self] at hset

theorem Matched.setTask (h : Matched leaks calls tasks) {i : Nat} (hc : calls[i]? = some c) (hfits : c.Fits leaks t)
    : Matched leaks calls (tasks.set i t) := by
  have hset := h.set hfits i
  obtain ⟨hlt, hget⟩ := List.getElem?_eq_some_iff.mp hc
  rwa [← hget, List.set_getElem_self] at hset

theorem Matched.countP_le (h : Matched leaks calls tasks) {p : RedisCall → Bool} {q : Acquisition → Bool}
    (hpq : ∀ c t, c.Fits leaks t → p c = true → q t = true)
    : calls.countP p ≤ tasks.countP q := by
  obtain ⟨hlength, hfits⟩ := h
  induction calls generalizing tasks with
  | nil => simp
  | cons c calls ih =>
    cases tasks with
    | nil => cases hlength
    | cons t tasks =>
      have hfirst := hpq c t (hfits 0 c t rfl rfl)
      have hlength' : calls.length = tasks.length := by simpa using hlength
      have hrest := ih hlength' (fun i c t hc ht => hfits (i + 1) c t hc ht)
      rw [List.countP_cons, List.countP_cons]
      by_cases hp : p c = true
      . rw [if_pos hp, if_pos (hfirst hp)]
        omega
      . rw [if_neg hp]
        omega

theorem Matched.countP_eq (h : Matched leaks calls tasks) {p : RedisCall → Bool} {q : Acquisition → Bool}
    (hpq : ∀ c t, c.Fits leaks t → p c = q t)
    : calls.countP p = tasks.countP q := by
  have hle := h.countP_le (p := p) (q := q) (fun c t hfits hp => by rw [← hpq c t hfits]; exact hp)
  have hnot := h.countP_le (p := fun c => ¬p c) (q := fun t => ¬q t) (by
    intro c t hfits hp
    rw [← hpq c t hfits]
    exact hp)
  have hcalls := List.length_eq_countP_add_countP p (l := calls)
  have htasks := List.length_eq_countP_add_countP q (l := tasks)
  have hlength := h.length
  omega

theorem Matched.concat (h : Matched leaks calls tasks) (hfits : c.Fits leaks t)
    : Matched leaks (calls ++ [c]) (tasks ++ [t]) := by
  refine ⟨by simpa using h.length, ?_⟩
  intro i c' t' hc ht
  have hlength := h.length
  by_cases hlt : i < calls.length
  . rw [List.getElem?_append_left hlt] at hc
    rw [List.getElem?_append_left (by omega)] at ht
    exact h.fits i c' t' hc ht
  . rw [List.getElem?_append_right (by omega), List.getElem?_singleton] at hc ht
    obtain ⟨-, hc⟩ := Option.ite_none_right_eq_some.mp hc
    obtain ⟨-, ht⟩ := Option.ite_none_right_eq_some.mp ht
    cases hc
    cases ht
    exact hfits

structure Safe (config : RateLimitConfig) (leaks : Bool) (s : RedisRateLimiter) : Prop where
  limiter : ProviderRateLimiter.Inv config 0 s.limiter
  matched : Matched leaks s.calls s.limiter.tasks

theorem safe_create (config : RateLimitConfig) (leaks : Bool) : Safe config leaks (create config) := by
  refine ⟨ProviderRateLimiter.inv_create config, rfl, ?_⟩
  intro i c t hc
  cases hc

variable {next : RedisCall}

theorem safe_place (h : Safe config leaks s) (hc : s.calls[call]? = some c)
    (hfits : ∀ t, c.Fits leaks t → next.Fits leaks t)
    : Safe config leaks (s.place call next) := by
  obtain ⟨t, ht, hct⟩ := h.matched.task hc
  exact ⟨h.limiter, h.matched.setCall ht (hfits t hct)⟩

theorem safe_count (h : Safe config leaks s) (applied : Bool) (change : Int)
    : Safe config leaks (s.count applied change) :=
  ⟨h.limiter, h.matched⟩

theorem eq_acquired_of_holds (hholds : c.holds = true) (hfits : c.Fits leaks t) : t = .acquired := by
  cases c with
  | incrRpm => exact hfits
  | expireRpm current => exact hfits
  | incrConcurrent => exact hfits
  | expireConcurrent => exact hfits
  | acquired => exact hfits
  | _ => cases hholds

theorem safe_release (h : Safe config leaks s) (hc : s.calls[call]? = some c) (hholds : c.holds = true)
    (hfits : next.Fits leaks .released)
    : Safe config leaks ({ s with limiter := s.limiter.release call }.place call next) := by
  obtain ⟨t, ht, hct⟩ := h.matched.task hc
  have hacquired := eq_acquired_of_holds hholds hct
  refine ⟨ProviderRateLimiter.inv_release h.limiter call, ?_⟩
  have htasks : (s.limiter.release call).tasks = s.limiter.tasks.set call .released := by
    unfold ProviderRateLimiter.release
    rw [ht, hacquired]
    rfl
  show Matched leaks (s.calls.set call next) (s.limiter.release call).tasks
  rw [htasks]
  exact h.matched.set hfits call

theorem safe_checked (h : Safe config leaks s) (hc : s.calls[call]? = some c) (hholds : c.holds = true)
    (current : Int)
    : Safe config leaks (s.checked config call current) := by
  unfold checked
  split
  . exact safe_place h hc (fun t hct => eq_acquired_of_holds hholds hct)
  . exact safe_release h hc hholds rfl

theorem safe_afterLocal (hlimiter : ProviderRateLimiter.Inv config 0 s.limiter)
    (h : Matched leaks s.calls tasks) (hc : s.calls[call]? = some .acquiring)
    (ht : t = .acquired ∨ t = .sleeping ∨ t = .queued) (htasks : s.limiter.tasks = tasks.set call t)
    : Safe config leaks (s.afterLocal config call) := by
  have hlt := (List.getElem?_eq_some_iff.mp hc).1
  have htask : s.limiter.tasks[call]? = some t := by
    rw [htasks, List.getElem?_set_self (by rw [← h.length]; exact hlt)]
  unfold afterLocal
  rw [htask]
  cases t with
  | acquired =>
    dsimp only
    unfold checkRpmRedis
    split
    . refine ⟨hlimiter, ?_⟩
      show Matched leaks (s.calls.set call .incrConcurrent) s.limiter.tasks
      rw [htasks]
      exact h.set (c := .incrConcurrent) (t := .acquired) rfl call
    . refine ⟨hlimiter, ?_⟩
      show Matched leaks (s.calls.set call .incrRpm) s.limiter.tasks
      rw [htasks]
      exact h.set (c := .incrRpm) (t := .acquired) rfl call
  | sleeping =>
    refine ⟨hlimiter, ?_⟩
    rw [htasks]
    exact h.setTask hc (.inr rfl)
  | queued =>
    refine ⟨hlimiter, ?_⟩
    rw [htasks]
    exact h.setTask hc (.inl rfl)
  | _ => simp at ht

theorem safe_acquire (h : Safe config leaks s) (elapsed : Elapsed) : Safe config leaks (s.acquire config elapsed) := by
  unfold acquire
  split
  . exact h
  . next hmax =>
    obtain ⟨a, ha, htasks⟩ := ProviderRateLimiter.tasks_acquire config s.limiter elapsed hmax
    have hlimiter := ProviderRateLimiter.inv_acquire h.limiter elapsed
    rw [← h.matched.length] at htasks
    exact safe_afterLocal hlimiter (h.matched.concat (c := .acquiring) (t := .queued) (.inl rfl))
      List.getElem?_concat_length ha htasks

theorem safe_resume (h : Safe config leaks s) (call : Nat) (elapsed : Elapsed)
    : Safe config leaks (s.resume config call elapsed) := by
  unfold resume
  split
  . next hc =>
    obtain ⟨t, ht, hct⟩ := h.matched.task hc
    have hwaits : s.limiter.tasks[call]? = some .queued ∨ s.limiter.tasks[call]? = some .sleeping := by
      rw [ht]
      exact hct.imp (congrArg some) (congrArg some)
    obtain ⟨a, ha, htasks⟩ := ProviderRateLimiter.tasks_resume config s.limiter call elapsed hwaits
    have hlimiter := ProviderRateLimiter.inv_resume h.limiter call elapsed
    exact safe_afterLocal hlimiter h.matched hc ha htasks
  . exact h

theorem safe_reply (h : Safe config leaks s) (call : Nat) (reply : RedisReply)
    : Safe config leaks (s.reply config call reply) := by
  unfold RedisRateLimiter.reply
  split
  . next current hc =>
    split
    . exact safe_place h hc (fun t hct => hct)
    . exact safe_checked h hc rfl current
  . next hc => exact safe_place h hc (fun t hct => hct)
  . next current _ hc => exact safe_checked h hc rfl current
  . next hc => exact safe_place h hc (fun t hct => hct)
  . next hc => exact safe_place (safe_count h true 1) hc (fun t hct => hct)
  . next applied hc => exact safe_place (safe_count h applied 1) hc (fun t hct => hct)
  . next hc => exact safe_place h hc (fun t hct => hct)
  . next hc => exact safe_place (safe_count h true (-1)) hc (fun t hct => hct)
  . next applied hc => exact safe_place (safe_count h applied (-1)) hc (fun t hct => hct)
  . exact h

def Spares (s : RedisRateLimiter) (request : RedisRequest) : Prop :=
  match request with
  | .cancel call _ => ∀ c, s.calls[call]? = some c → c.holds = true → c = .acquired
  | _ => True

theorem safe_cancel (h : Safe config leaks s) (call : Nat) (applied : Bool)
    (hspares : leaks = false → s.Spares (.cancel call applied))
    : Safe config leaks (s.cancel call applied) := by
  have hleaks : ∀ c, s.calls[call]? = some c → c.holds = true → c ≠ .acquired →
      ∀ t, t = .acquired → RedisCall.cancelled.Fits leaks t := by
    intro c hc hholds hne t ht
    cases leaks with
    | true => exact .inr ⟨rfl, ht⟩
    | false => exact absurd (hspares rfl c hc hholds) hne
  unfold RedisRateLimiter.cancel
  split
  . next hc =>
    obtain ⟨t, ht, hct⟩ := h.matched.task hc
    have hwaits : s.limiter.tasks[call]? = some .queued ∨ s.limiter.tasks[call]? = some .sleeping := by
      rw [ht]
      exact hct.imp (congrArg some) (congrArg some)
    refine ⟨ProviderRateLimiter.inv_cancel h.limiter call, ?_⟩
    show Matched leaks (s.calls.set call .cancelled) (s.limiter.cancel call).tasks
    rw [ProviderRateLimiter.tasks_cancel hwaits]
    exact h.matched.set (c := .cancelled) (t := .cancelled) (.inl rfl) call
  . next hc => exact safe_place h hc (hleaks _ hc rfl (by decide))
  . next hc => exact safe_place h hc (hleaks _ hc rfl RedisCall.noConfusion)
  . next hc => exact safe_place (safe_count h applied 1) hc (hleaks _ hc rfl (by decide))
  . next hc => exact safe_place h hc (hleaks _ hc rfl (by decide))
  . next hc => exact safe_place (safe_count h applied (-1)) hc (fun t hct => hct)
  . exact h

theorem safe_step (h : Safe config leaks s) (request : RedisRequest)
    (hspares : leaks = false → s.Spares request)
    : Safe config leaks (s.step config request).1 := by
  cases request with
  | acquire elapsed => exact safe_acquire h elapsed
  | resume call elapsed => exact safe_resume h call elapsed
  | reply call reply => exact safe_reply h call reply
  | cancel call applied => exact safe_cancel h call applied hspares
  | releaseAsync call =>
    show Safe config leaks (s.releaseAsync call)
    unfold releaseAsync
    split
    . next hc => exact safe_release h hc rfl rfl
    . exact h
  | release call =>
    show Safe config leaks (s.release call)
    unfold RedisRateLimiter.release
    split
    . next hc => exact safe_release h hc rfl rfl
    . exact h
  | expired => exact ⟨h.limiter, h.matched⟩

def Counted (s : RedisRateLimiter) : Prop :=
  s.concurrent = s.calls.countP RedisCall.counted

theorem counted_place (hc : s.calls[call]? = some c)
    (h : s.concurrent + (if c.counted then 1 else 0)
      = s.calls.countP RedisCall.counted + (if next.counted then 1 else 0))
    : Counted (s.place call next) := by
  obtain ⟨hlt, hget⟩ := List.getElem?_eq_some_iff.mp hc
  have hpos : c.counted = true → 0 < s.calls.countP RedisCall.counted := by
    intro hcounted
    rw [List.countP_pos_iff]
    exact ⟨c, List.mem_of_getElem? hc, hcounted⟩
  show s.concurrent = ((s.calls.set call next).countP RedisCall.counted : Nat)
  rw [List.countP_set hlt, hget]
  by_cases hcounted : c.counted = true
  . have := hpos hcounted
    rw [if_pos hcounted] at h ⊢
    by_cases hnext : next.counted = true
    . rw [if_pos hnext] at h ⊢
      omega
    . rw [if_neg hnext] at h ⊢
      omega
  . rw [if_neg hcounted] at h ⊢
    by_cases hnext : next.counted = true
    . rw [if_pos hnext] at h ⊢
      omega
    . rw [if_neg hnext] at h ⊢
      omega

theorem Counted.place (h : Counted s) (hc : s.calls[call]? = some c) (hsame : next.counted = c.counted)
    : Counted (s.place call next) := by
  apply counted_place hc
  rw [hsame, h]

theorem Counted.count (h : Counted s) (hc : s.calls[call]? = some c) {change : Int}
    (hchange : change + (if c.counted then 1 else 0) = if next.counted then 1 else 0)
    : Counted ((s.count true change).place call next) := by
  apply counted_place (s := s.count true change) hc
  show s.concurrent + change + _ = _
  rw [Int.add_assoc, hchange, h]
  rfl

theorem Counted.limiter (h : Counted s) (limiter : ProviderRateLimiter) : Counted { s with limiter } :=
  h

theorem counted_checkRpmRedis (h : Counted s) (hc : s.calls[call]? = some .acquiring)
    : Counted (s.checkRpmRedis config call) := by
  unfold checkRpmRedis
  split
  . exact h.place hc rfl
  . exact h.place hc rfl

theorem counted_checked (h : Counted s) (hc : s.calls[call]? = some c) (hbefore : c.counted = false)
    (current : Int)
    : Counted (s.checked config call current) := by
  unfold checked
  split
  . exact h.place hc hbefore.symm
  . exact (h.limiter _).place hc hbefore.symm

theorem counted_afterLocal (h : Counted s) (hc : s.calls[call]? = some .acquiring)
    : Counted (s.afterLocal config call) := by
  unfold afterLocal
  split
  . exact counted_checkRpmRedis h hc
  . exact h

-- The commands on the counter are carried out, no task is cancelled between them, no context is given back
-- without them, and the counter does not expire.
def Counts (s : RedisRateLimiter) (request : RedisRequest) : Prop :=
  match request with
  | .reply call (.failed applied) =>
    s.calls[call]? = some .incrConcurrent ∨ s.calls[call]? = some .decrementing → applied = true
  | .cancel call applied =>
    (s.calls[call]? = some .incrConcurrent → applied = false) ∧
    s.calls[call]? ≠ some .expireConcurrent ∧
    (s.calls[call]? = some .decrementing → applied = true)
  | .release call => s.calls[call]? ≠ some .acquired
  | .expired => s.concurrent = 0
  | _ => True

theorem counted_reply (h : Counted s) (call : Nat) (reply : RedisReply) (hcounts : s.Counts (.reply call reply))
    : Counted (s.reply config call reply) := by
  unfold RedisRateLimiter.reply
  split
  . next current hc =>
    split
    . exact h.place hc rfl
    . exact counted_checked h hc rfl current
  . next hc => exact h.place hc rfl
  . next current _ hc => exact counted_checked h hc rfl current
  . next hc => exact h.place hc rfl
  . next hc => exact h.count hc rfl
  . next applied hc =>
    rw [hcounts (.inl hc)]
    exact h.count hc rfl
  . next hc => exact h.place hc rfl
  . next hc => exact h.count hc rfl
  . next applied hc =>
    rw [hcounts (.inr hc)]
    exact h.count hc rfl
  . exact h

theorem counted_cancel (h : Counted s) (call : Nat) (applied : Bool) (hcounts : s.Counts (.cancel call applied))
    : Counted (s.cancel call applied) := by
  obtain ⟨hincr, hexpire, hdecr⟩ := hcounts
  unfold RedisRateLimiter.cancel
  split
  . next hc => exact (h.limiter _).place hc rfl
  . next hc => exact h.place hc rfl
  . next hc => exact h.place hc rfl
  . next hc =>
    rw [hincr hc]
    have hsame : s.count false 1 = s := by
      unfold RedisRateLimiter.count
      rw [if_neg Bool.false_ne_true, Int.add_zero]
    rw [hsame]
    exact h.place hc rfl
  . next hc => exact absurd hc hexpire
  . next hc =>
    rw [hdecr hc]
    exact h.count hc rfl
  . exact h

theorem counted_step (h : Counted s) (request : RedisRequest) (hcounts : s.Counts request)
    : Counted (s.step config request).1 := by
  cases request with
  | acquire elapsed =>
    show Counted (s.acquire config elapsed)
    unfold acquire
    split
    . exact h
    . apply counted_afterLocal
      . show s.concurrent = ((s.calls ++ [RedisCall.acquiring]).countP RedisCall.counted : Nat)
        rw [List.countP_append, h]
        rfl
      . exact List.getElem?_concat_length
  | resume call elapsed =>
    show Counted (s.resume config call elapsed)
    unfold resume
    split
    . next hc => exact counted_afterLocal (h.limiter _) hc
    . exact h
  | reply call reply => exact counted_reply h call reply hcounts
  | cancel call applied => exact counted_cancel h call applied hcounts
  | releaseAsync call =>
    show Counted (s.releaseAsync call)
    unfold releaseAsync
    split
    . next hc => exact (h.limiter _).place hc rfl
    . exact h
  | release call =>
    show Counted (s.release call)
    unfold RedisRateLimiter.release
    split
    . next hc => exact absurd hc hcounts
    . exact h
  | expired =>
    have hzero : s.concurrent = s.calls.countP RedisCall.counted := h
    rw [hcounts] at hzero
    exact hzero

theorem contexts_le (h : Safe config leaks s) : s.calls.count .acquired ≤ config.maxConcurrent.toNat := by
  have hpermits := h.limiter.permits
  have hle := h.matched.countP_le (p := (· == .acquired)) (q := (· == .acquired)) (by
    intro c t hfits hc
    rw [beq_iff_eq] at hc
    rw [hc] at hfits
    rw [beq_iff_eq]
    exact hfits)
  have hheld : s.limiter.tasks.countP (· == .acquired) = s.limiter.held := rfl
  show s.calls.countP (· == .acquired) ≤ _
  omega

theorem permits_of_spares (h : Safe config false s)
    : s.limiter.semaphore.permits + s.calls.countP RedisCall.holds = config.maxConcurrent.toNat := by
  have hpermits := h.limiter.permits
  have heq := h.matched.countP_eq (p := RedisCall.holds) (q := (· == .acquired)) (by
    intro c t hfits
    rw [Bool.eq_iff_iff, beq_iff_eq]
    cases c <;> cases t <;> simp_all [RedisCall.holds, RedisCall.Fits])
  have hheld : s.limiter.tasks.countP (· == .acquired) = s.limiter.held := rfl
  omega

theorem value_of_isOver (h : Safe config false s) (hover : ∀ c ∈ s.calls, c.isOver = true)
    : s.limiter.semaphore.value = config.maxConcurrent.toNat := by
  have hwaiters : s.limiter.semaphore.waiters = [] := by
    rw [← List.map_eq_nil_iff (f := Prod.fst), List.eq_nil_iff_forall_not_mem]
    intro i hi
    have hqueued := h.limiter.waits.queued i hi
    have hlt := (List.getElem?_eq_some_iff.mp hqueued).1
    rw [← h.matched.length] at hlt
    have hfits := h.matched.fits i _ _ (List.getElem?_eq_getElem hlt) hqueued
    have hcall := hover _ (List.getElem_mem hlt)
    cases hc : s.calls[i] <;> simp_all [RedisCall.isOver, RedisCall.Fits]
  have hholds : s.calls.countP RedisCall.holds = 0 := by
    rw [List.countP_eq_zero]
    intro c hc hholds
    have hcall := hover c hc
    cases c <;> simp_all [RedisCall.isOver, RedisCall.holds]
  have hpermits := permits_of_spares h
  rw [hholds, AsyncSemaphore.permits, hwaiters] at hpermits
  exact hpermits

theorem concurrent_of_isOver (h : Counted s) (hover : ∀ c ∈ s.calls, c.isOver = true) : s.concurrent = 0 := by
  have hzero : s.calls.countP RedisCall.counted = 0 := by
    rw [List.countP_eq_zero]
    intro c hc hcounted
    have hcall := hover c hc
    cases c <;> simp_all [RedisCall.isOver, RedisCall.counted]
  rw [h, hzero]
  rfl

variable {requests : List RedisRequest}

theorem safe_final (config : RateLimitConfig) (requests : List RedisRequest)
    : Safe config true (Machine.final (step config) (create config) requests) := by
  apply Machine.inv_final (I := Safe config true)
  . intro s request hs
    exact safe_step hs request (fun hfalse => by cases hfalse)
  . exact safe_create config true

theorem safe_final_of_spares
    (hspares : ∀ e ∈ Machine.transcript (step config) (create config) requests, Spares e.before e.request)
    : Safe config false (Machine.final (step config) (create config) requests) := by
  apply Machine.inv_transcript (C := Spares) (I := fun _ s => Safe config false s) _ (safe_create config false) _
    hspares
  intro _ s request hs hrequest
  exact safe_step hs request (fun _ => hrequest)

theorem counted_final
    (hcounts : ∀ e ∈ Machine.transcript (step config) (create config) requests, Counts e.before e.request)
    : Counted (Machine.final (step config) (create config) requests) := by
  have hcreate : Counted (create config) := rfl
  apply Machine.inv_transcript (C := Counts) (I := fun _ s => Counted s) _ hcreate _ hcounts
  intro _ s request hs hrequest
  exact counted_step hs request hrequest

end RedisRateLimiter

theorem inv_final_local (config : RateLimitConfig) (requests : List LimiterRequest)
    : ProviderRateLimiter.Inv config 0
        (Machine.final (ProviderRateLimiter.step config) (.create config) requests) := by
  apply Machine.inv_final (I := ProviderRateLimiter.Inv config 0)
  . intro s request hs
    exact ProviderRateLimiter.inv_step hs request
  . exact ProviderRateLimiter.inv_create config

/--
The local limiter keeps to its permits and its windows. The limiter on Redis keeps to its permits, gives them
back unless a task is cancelled while it waits for Redis, and gives the counter back if its commands are
carried out.
-/
theorem rate_limits_kept (config : RateLimitConfig)
    : (∀ requests,
        let s := Machine.final (ProviderRateLimiter.step config) (.create config) requests
        s.held ≤ config.maxConcurrent.toNat ∧
        (0 < config.rpm →
          SlidingWindow.Limited config.windowSeconds (ProviderRateLimiter.maxRequests config).toNat s.grants) ∧
        s.semaphore.permits + s.held = config.maxConcurrent.toNat ∧
        (∀ task ∈ s.semaphore.ids, s.tasks[task]? = some .queued) ∧
        (∀ task later, s.tasks[task]? = some .acquired →
          let s' := Machine.final (ProviderRateLimiter.step config) (s.release task) later
          s'.release task = s')) ∧
      (∀ requests,
        (Machine.final (RedisRateLimiter.step config) (.create config) requests).calls.count .acquired
          ≤ config.maxConcurrent.toNat) ∧
      (∀ requests,
        (∀ e ∈ Machine.transcript (RedisRateLimiter.step config) (.create config) requests,
          RedisRateLimiter.Spares e.before e.request) →
        let s := Machine.final (RedisRateLimiter.step config) (.create config) requests
        s.limiter.semaphore.permits + s.calls.countP RedisCall.holds = config.maxConcurrent.toNat ∧
        ((∀ c ∈ s.calls, c.isOver = true) → s.limiter.semaphore.value = config.maxConcurrent.toNat)) ∧
      (∀ requests,
        (∀ e ∈ Machine.transcript (RedisRateLimiter.step config) (.create config) requests,
          RedisRateLimiter.Counts e.before e.request) →
        let s := Machine.final (RedisRateLimiter.step config) (.create config) requests
        s.concurrent = s.calls.countP RedisCall.counted ∧
        ((∀ c ∈ s.calls, c.isOver = true) → s.concurrent = 0)) := by
  refine ⟨?_, ?_, ?_, ?_⟩
  . intro requests s
    have hinv : ProviderRateLimiter.Inv config 0 s := inv_final_local config requests
    have hpermits := hinv.permits
    refine ⟨by omega, hinv.windowed.limited, hpermits, hinv.waits.queued, ?_⟩
    intro task later htask
    exact ProviderRateLimiter.release_final htask later
  . intro requests
    exact RedisRateLimiter.contexts_le (RedisRateLimiter.safe_final config requests)
  . intro requests hspares
    have hsafe := RedisRateLimiter.safe_final_of_spares hspares
    exact ⟨RedisRateLimiter.permits_of_spares hsafe, RedisRateLimiter.value_of_isOver hsafe⟩
  . intro requests hcounts
    have hcounted := RedisRateLimiter.counted_final hcounts
    exact ⟨hcounted, RedisRateLimiter.concurrent_of_isOver hcounted⟩

/--
Without a limit for the minute there are more grants than the allowance. A cancellation between the commands
keeps a permit and the counter, and so does a release that does not wait keep the counter.
-/
theorem rate_limits_exceeded
    : (¬∀ config requests,
        SlidingWindow.Limited config.windowSeconds (ProviderRateLimiter.maxRequests config).toNat
          (Machine.final (ProviderRateLimiter.step config) (.create config) requests).grants) ∧
      (¬∀ config requests,
        let s := Machine.final (RedisRateLimiter.step config) (.create config) requests
        (∀ c ∈ s.calls, c.isOver = true) → s.limiter.semaphore.value = config.maxConcurrent.toNat) ∧
      (¬∀ config requests,
        let s := Machine.final (RedisRateLimiter.step config) (.create config) requests
        (∀ c ∈ s.calls, c = .released) → s.concurrent = 0) := by
  refine ⟨?_, ?_, ?_⟩
  . intro h
    have hlimited := h ⟨10, 0, 0, 60⟩ [.acquire ⟨0, 0⟩] 0
    revert hlimited
    decide
  . intro h
    have hvalue := h ⟨1, 60, 5, 60⟩ [.acquire ⟨0, 0⟩, .cancel 0 true]
    revert hvalue
    decide
  . intro h
    have hzero := h ⟨1, 60, 5, 60⟩ [.acquire ⟨0, 0⟩, .reply 0 (.ok 2), .reply 0 (.ok 1), .reply 0 (.ok 1), .release 0]
    revert hzero
    decide

end Llm
end MemStack
