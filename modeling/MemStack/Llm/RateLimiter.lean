import MemStack.Util.Machine
import MemStack.Util.Semaphore
import MemStack.Util.Windows

/-!
This module contains the rate limiters in front of an LLM provider (`llm/resilience/rate_limiter.py`), for one
provider whose configuration stays, and what they keep to, whatever the order of the steps of the tasks. A step is
what a task does up to its next await. The clock is given by how much it has gone on since it was read last.
-/

namespace MemStack
namespace Llm

structure RateLimitConfig where
  maxConcurrent : Int
  rpm : Int
  burstAllowance : Int
  windowSeconds : Int

-- Where a call of `acquire` is, or what its context is.
inductive Acquisition where
  | queued
  | sleeping
  | acquired
  | released
  | cancelled
  deriving DecidableEq, Repr

-- All grants are kept for what is said about them, only `requestTimes` is looked at.
structure ProviderRateLimiter where
  semaphore : AsyncSemaphore Nat
  requestTimes : List Int
  tasks : List Acquisition
  now : Int
  grants : List Int
  deriving DecidableEq, Repr

structure Elapsed where
  check : Nat
  record : Nat

inductive LimiterRequest where
  | acquire (elapsed : Elapsed)
  | resume (task : Nat) (elapsed : Elapsed)
  | cancel (task : Nat)
  | release (task : Nat)

namespace ProviderRateLimiter

def create (config : RateLimitConfig) : ProviderRateLimiter where
  semaphore := ⟨config.maxConcurrent.toNat, []⟩
  requestTimes := []
  tasks := []
  now := 0
  grants := []

variable (config : RateLimitConfig) (s : ProviderRateLimiter)

def maxRequests : Int :=
  config.rpm + config.burstAllowance

def checkRpmLimit (elapsed : Nat) : ProviderRateLimiter × Bool :=
  if config.rpm ≤ 0 then (s, true)
  else
    let now := s.now + elapsed
    let requestTimes := s.requestTimes.filter (now - config.windowSeconds < ·)
    ({ s with now, requestTimes }, decide ((requestTimes.length : Int) < maxRequests config))

def recordRequest (elapsed : Nat) : ProviderRateLimiter :=
  let now := s.now + elapsed
  { s with now, requestTimes := s.requestTimes ++ [now], grants := s.grants ++ [now] }

def place (task : Nat) (acquisition : Acquisition) : ProviderRateLimiter :=
  { s with tasks := s.tasks.set task acquisition }

def granted (task : Nat) (elapsed : Elapsed) : ProviderRateLimiter :=
  match s.checkRpmLimit config elapsed.check with
  | (s, true) => (s.recordRequest elapsed.record).place task .acquired
  | (s, false) => { s with semaphore := s.semaphore.release }.place task .sleeping

def enter (task : Nat) (elapsed : Elapsed) : ProviderRateLimiter :=
  match s.semaphore.acquire task with
  | (semaphore, true) => { s with semaphore }.granted config task elapsed
  | (semaphore, false) => { s with semaphore }.place task .queued

def acquire (elapsed : Elapsed) : ProviderRateLimiter :=
  if config.maxConcurrent < 0 then s
  else
    let entered := { s with tasks := s.tasks ++ [Acquisition.queued] }
    entered.enter config s.tasks.length elapsed

def resume (task : Nat) (elapsed : Elapsed) : ProviderRateLimiter :=
  match s.tasks[task]? with
  | some .queued =>
    if (task, true) ∈ s.semaphore.waiters then
      { s with semaphore := s.semaphore.resume task }.granted config task elapsed
    else s
  | some .sleeping => s.enter config task elapsed
  | _ => s

def cancel (task : Nat) : ProviderRateLimiter :=
  match s.tasks[task]? with
  | some .queued => { s with semaphore := s.semaphore.cancel task }.place task .cancelled
  | some .sleeping => s.place task .cancelled
  | _ => s

-- `RateLimitContext.release`, and its `__aexit__`.
def release (task : Nat) : ProviderRateLimiter :=
  match s.tasks[task]? with
  | some .acquired => { s with semaphore := s.semaphore.release }.place task .released
  | _ => s

def step : LimiterRequest → ProviderRateLimiter × Unit
  | .acquire elapsed => (s.acquire config elapsed, ())
  | .resume task elapsed => (s.resume config task elapsed, ())
  | .cancel task => (s.cancel task, ())
  | .release task => (s.release task, ())

def held : Nat :=
  s.tasks.count .acquired

end ProviderRateLimiter

-- Where a call of `RedisRateLimiter.acquire` waits once the local limiter has let it pass, or what its context is.
inductive RedisCall where
  | acquiring
  | incrRpm
  | expireRpm (current : Int)
  | incrConcurrent
  | expireConcurrent
  | acquired
  | decrementing
  | released
  | rejected
  | cancelled
  deriving DecidableEq, Repr

inductive RedisReply where
  | ok (value : Int)
  | failed (applied : Bool)

-- `concurrent` is the counter that the workers share. The task of a call has its index in the local limiter.
structure RedisRateLimiter where
  limiter : ProviderRateLimiter
  concurrent : Int
  calls : List RedisCall
  deriving DecidableEq, Repr

inductive RedisRequest where
  | acquire (elapsed : Elapsed)
  | resume (call : Nat) (elapsed : Elapsed)
  | reply (call : Nat) (reply : RedisReply)
  | cancel (call : Nat) (applied : Bool)
  | releaseAsync (call : Nat)
  | release (call : Nat)
  | expired

namespace RedisRateLimiter

def create (config : RateLimitConfig) : RedisRateLimiter :=
  ⟨.create config, 0, []⟩

variable (config : RateLimitConfig) (s : RedisRateLimiter)

def place (call : Nat) (next : RedisCall) : RedisRateLimiter :=
  { s with calls := s.calls.set call next }

def checkRpmRedis (call : Nat) : RedisRateLimiter :=
  if config.rpm ≤ 0 then s.place call .incrConcurrent else s.place call .incrRpm

def afterLocal (call : Nat) : RedisRateLimiter :=
  match s.limiter.tasks[call]? with
  | some .acquired => s.checkRpmRedis config call
  | _ => s

def acquire (elapsed : Elapsed) : RedisRateLimiter :=
  if config.maxConcurrent < 0 then s
  else
    let entered := { s with
      limiter := s.limiter.acquire config elapsed
      calls := s.calls ++ [RedisCall.acquiring] }
    entered.afterLocal config s.calls.length

def resume (call : Nat) (elapsed : Elapsed) : RedisRateLimiter :=
  match s.calls[call]? with
  | some .acquiring => { s with limiter := s.limiter.resume config call elapsed }.afterLocal config call
  | _ => s

def reject (call : Nat) : RedisRateLimiter :=
  { s with limiter := s.limiter.release call }.place call .rejected

def checked (call : Nat) (current : Int) : RedisRateLimiter :=
  if current ≤ ProviderRateLimiter.maxRequests config then s.place call .incrConcurrent else s.reject call

def count (applied : Bool) (change : Int) : RedisRateLimiter :=
  { s with concurrent := s.concurrent + if applied then change else 0 }

def reply (call : Nat) (reply : RedisReply) : RedisRateLimiter :=
  match s.calls[call]?, reply with
  | some .incrRpm, .ok current =>
    if current = 1 then s.place call (.expireRpm current) else s.checked config call current
  | some .incrRpm, .failed _ => s.place call .incrConcurrent
  | some (.expireRpm current), .ok _ => s.checked config call current
  | some (.expireRpm _), .failed _ => s.place call .incrConcurrent
  | some .incrConcurrent, .ok _ => (s.count true 1).place call .expireConcurrent
  | some .incrConcurrent, .failed applied => (s.count applied 1).place call .acquired
  | some .expireConcurrent, _ => s.place call .acquired
  | some .decrementing, .ok _ => (s.count true (-1)).place call .released
  | some .decrementing, .failed applied => (s.count applied (-1)).place call .released
  | _, _ => s

-- A cancellation is no `Exception`, so nothing catches it.
def cancel (call : Nat) (applied : Bool) : RedisRateLimiter :=
  match s.calls[call]? with
  | some .acquiring => { s with limiter := s.limiter.cancel call }.place call .cancelled
  | some .incrRpm => s.place call .cancelled
  | some (.expireRpm _) => s.place call .cancelled
  | some .incrConcurrent => (s.count applied 1).place call .cancelled
  | some .expireConcurrent => s.place call .cancelled
  | some .decrementing => (s.count applied (-1)).place call .released
  | _ => s

-- `release_async`, and `__aexit__`.
def releaseAsync (call : Nat) : RedisRateLimiter :=
  match s.calls[call]? with
  | some .acquired => { s with limiter := s.limiter.release call }.place call .decrementing
  | _ => s

def release (call : Nat) : RedisRateLimiter :=
  match s.calls[call]? with
  | some .acquired => { s with limiter := s.limiter.release call }.place call .released
  | _ => s

def step : RedisRequest → RedisRateLimiter × Unit
  | .acquire elapsed => (s.acquire config elapsed, ())
  | .resume call elapsed => (s.resume config call elapsed, ())
  | .reply call reply => (s.reply config call reply, ())
  | .cancel call applied => (s.cancel call applied, ())
  | .releaseAsync call => (s.releaseAsync call, ())
  | .release call => (s.release call, ())
  | .expired => ({ s with concurrent := 0 }, ())

end RedisRateLimiter

open SlidingWindow

namespace ProviderRateLimiter

variable {config : RateLimitConfig} {s : ProviderRateLimiter} {task : Nat} {a b : Acquisition}

structure Windowed (config : RateLimitConfig) (s : ProviderRateLimiter) : Prop where
  keeps : Keeps config.windowSeconds s.now s.requestTimes s.grants
  limited : 0 < config.rpm → Limited config.windowSeconds (maxRequests config).toNat s.grants

structure Waits (s : ProviderRateLimiter) : Prop where
  nodup : s.semaphore.ids.Nodup
  queued : ∀ i ∈ s.semaphore.ids, s.tasks[i]? = some .queued

-- `taken` is the number of permits that a task holds in the middle of its step.
structure Inv (config : RateLimitConfig) (taken : Nat) (s : ProviderRateLimiter) : Prop where
  permits : s.semaphore.permits + s.held + taken = config.maxConcurrent.toNat
  windowed : Windowed config s
  waits : Waits s

theorem inv_create (config : RateLimitConfig) : Inv config 0 (create config) := by
  refine ⟨rfl, ⟨keeps_nil _ _, fun _ => limited_nil _ _⟩, List.nodup_nil, ?_⟩
  intro i hi
  cases hi

theorem held_place (h : s.tasks[task]? = some a)
    : (s.place task b).held + (if a = .acquired then 1 else 0)
        = s.held + if b = .acquired then 1 else 0 := by
  obtain ⟨hlt, hget⟩ := List.getElem?_eq_some_iff.mp h
  unfold held place
  dsimp only
  rw [List.count_set hlt, hget]
  have hpos : a = .acquired → 0 < s.tasks.count .acquired := by
    rintro rfl
    rw [List.count_pos_iff, ← hget]
    exact List.getElem_mem hlt
  by_cases hbefore : a = .acquired
  . have := hpos hbefore
    simp only [hbefore, beq_iff_eq, if_true]
    split <;> omega
  . simp [hbefore]

theorem held_place_of_ne (h : s.tasks[task]? = some a) (hbefore : a ≠ .acquired)
    (hafter : b ≠ .acquired)
    : (s.place task b).held = s.held := by
  have hheld := held_place (b := b) h
  rwa [if_neg hbefore, if_neg hafter] at hheld

theorem windowed_place (h : Windowed config s) (task : Nat) (acquisition : Acquisition)
    : Windowed config (s.place task acquisition) :=
  ⟨h.keeps, h.limited⟩

theorem windowed_semaphore (h : Windowed config s) (semaphore : AsyncSemaphore Nat)
    : Windowed config { s with semaphore } :=
  ⟨h.keeps, h.limited⟩

theorem windowed_checkRpmLimit (h : Windowed config s) (elapsed : Nat)
    : Windowed config (s.checkRpmLimit config elapsed).1 := by
  unfold checkRpmLimit
  split
  . exact h
  . have hlater : s.now ≤ s.now + (elapsed : Int) := by omega
    exact ⟨(h.keeps.later hlater).pruned, h.limited⟩

theorem windowed_recordRequest (h : Windowed config s) {elapsed : Nat} {checked : ProviderRateLimiter}
    (hcheck : s.checkRpmLimit config elapsed = (checked, true)) (elapsed' : Nat)
    : Windowed config (checked.recordRequest elapsed') := by
  have hchecked := windowed_checkRpmLimit h elapsed
  rw [hcheck] at hchecked
  have hlater : checked.now ≤ checked.now + (elapsed' : Int) := by omega
  refine ⟨(hchecked.keeps.later hlater).concat _, ?_⟩
  intro hrpm
  apply limited_concat (c := checked.now) (hchecked.limited hrpm)
  . exact hlater
  . unfold checkRpmLimit at hcheck
    rw [if_neg (by omega)] at hcheck
    have hkept := hchecked.keeps checked.now (Int.le_refl _)
    rw [← hkept]
    obtain ⟨hstate, hallowed⟩ := Prod.mk.inj hcheck
    rw [decide_eq_true_eq] at hallowed
    rw [← hstate]
    dsimp only
    rw [List.filter_filter]
    simp only [Bool.and_self]
    omega

theorem waits_place (h : Waits s) (hfree : task ∉ s.semaphore.ids) (acquisition : Acquisition)
    : Waits (s.place task acquisition) := by
  refine ⟨h.nodup, ?_⟩
  intro i hi
  have hne : task ≠ i := by
    rintro rfl
    exact hfree hi
  show (s.tasks.set task acquisition)[i]? = _
  rw [List.getElem?_set_ne hne]
  exact h.queued i hi

theorem Waits.subset (h : Waits s) (semaphore : AsyncSemaphore Nat) (hnodup : semaphore.ids.Nodup)
    (hsub : semaphore.ids ⊆ s.semaphore.ids)
    : Waits { s with semaphore } :=
  ⟨hnodup, fun i hi => h.queued i (hsub hi)⟩

theorem Waits.free (h : Waits s) (htask : s.tasks[task]? = some a) (hbefore : a ≠ .queued)
    : task ∉ s.semaphore.ids := by
  intro hmem
  have hqueued := h.queued task hmem
  rw [htask] at hqueued
  exact hbefore (Option.some_inj.mp hqueued)

theorem tasks_checkRpmLimit (config : RateLimitConfig) (s : ProviderRateLimiter) (elapsed : Nat)
    : (s.checkRpmLimit config elapsed).1.tasks = s.tasks ∧
        (s.checkRpmLimit config elapsed).1.semaphore = s.semaphore := by
  unfold checkRpmLimit
  split <;> exact ⟨rfl, rfl⟩

theorem inv_granted (h : Inv config 1 s) (htask : s.tasks[task]? = some a) (hbefore : a ≠ .acquired)
    (hfree : task ∉ s.semaphore.ids) (elapsed : Elapsed)
    : Inv config 0 (s.granted config task elapsed) := by
  obtain ⟨htasks, hsemaphore⟩ := tasks_checkRpmLimit config s elapsed.check
  have hchecked := windowed_checkRpmLimit h.windowed elapsed.check
  have hpermits := h.permits
  unfold granted
  rcases hcheck : s.checkRpmLimit config elapsed.check with ⟨checked, allowed⟩
  rw [hcheck] at htasks hsemaphore hchecked
  dsimp only at htasks hsemaphore hchecked
  rw [← htasks] at htask
  have hheld : checked.held = s.held := by
    unfold held
    rw [htasks]
  have hwaits : Waits checked := by
    refine ⟨?_, ?_⟩
    . rw [hsemaphore]
      exact h.waits.nodup
    . rw [hsemaphore, htasks]
      exact h.waits.queued
  rw [← hsemaphore] at hfree
  cases allowed with
  | true =>
    dsimp only
    refine ⟨?_, windowed_place (windowed_recordRequest h.windowed hcheck elapsed.record) _ _,
      waits_place (s := checked.recordRequest elapsed.record) ⟨hwaits.nodup, hwaits.queued⟩ hfree _⟩
    have hplaced := held_place (s := checked.recordRequest elapsed.record) (b := .acquired) htask
    rw [if_neg hbefore, if_pos rfl, Nat.add_zero] at hplaced
    have hrecorded : (checked.recordRequest elapsed.record).held = checked.held := rfl
    show checked.semaphore.permits + _ + 0 = _
    rw [hplaced, hrecorded, hheld, hsemaphore]
    omega
  | false =>
    dsimp only
    have hids := AsyncSemaphore.ids_release checked.semaphore
    have hreleasedWaits := hwaits.subset (checked.semaphore.release) (by rw [hids]; exact hwaits.nodup)
      (by rw [hids]; exact List.Subset.refl _)
    refine ⟨?_, windowed_place (windowed_semaphore hchecked _) _ _,
      waits_place hreleasedWaits (by rw [hids]; exact hfree) _⟩
    have hplaced := held_place_of_ne (s := { checked with semaphore := checked.semaphore.release })
      (b := .sleeping) htask hbefore (by decide)
    have hreleased : ({ checked with semaphore := checked.semaphore.release } : ProviderRateLimiter).held
      = checked.held := rfl
    show checked.semaphore.release.permits + _ + 0 = _
    rw [hplaced, hreleased, hheld, AsyncSemaphore.permits_release, hsemaphore]
    omega

theorem inv_enter (h : Inv config 0 s) (htask : s.tasks[task]? = some a) (hbefore : a ≠ .acquired)
    (hfree : task ∉ s.semaphore.ids) (elapsed : Elapsed)
    : Inv config 0 (s.enter config task elapsed) := by
  have hpermits := h.permits
  have hacquire := AsyncSemaphore.permits_acquire s.semaphore task
  have hids := AsyncSemaphore.ids_acquire s.semaphore task
  unfold enter
  rcases hsemaphore : s.semaphore.acquire task with ⟨semaphore, taken⟩
  rw [hsemaphore] at hacquire hids
  dsimp only at hacquire hids
  cases taken with
  | true =>
    rw [if_pos rfl] at hacquire hids
    apply inv_granted (s := { s with semaphore }) _ htask hbefore (by rw [hids]; exact hfree)
    refine ⟨?_, windowed_semaphore h.windowed _,
      h.waits.subset _ (by rw [hids]; exact h.waits.nodup) (by rw [hids]; exact List.Subset.refl _)⟩
    show semaphore.permits + s.held + 1 = _
    omega
  | false =>
    rw [if_neg Bool.false_ne_true] at hacquire hids
    have hlt := (List.getElem?_eq_some_iff.mp htask).1
    refine ⟨?_, windowed_place (windowed_semaphore h.windowed _) _ _, ?_, ?_⟩
    rotate_left
    . show semaphore.ids.Nodup
      rw [hids]
      exact h.waits.nodup.append (List.nodup_singleton task) (by simpa using hfree)
    . intro i hi
      show (s.tasks.set task .queued)[i]? = _
      replace hi : i ∈ semaphore.ids := hi
      rw [hids, List.mem_append, List.mem_singleton] at hi
      by_cases heq : task = i
      . rw [← heq, List.getElem?_set_self hlt]
      . rw [List.getElem?_set_ne heq]
        exact h.waits.queued i (hi.resolve_right (Ne.symm heq))
    show semaphore.permits + (place { s with semaphore } task .queued).held + 0 = _
    rw [held_place_of_ne (s := { s with semaphore }) htask hbefore (by decide)]
    show semaphore.permits + s.held + 0 = _
    omega

theorem inv_acquire (h : Inv config 0 s) (elapsed : Elapsed) : Inv config 0 (s.acquire config elapsed) := by
  unfold acquire
  split
  . exact h
  . have hbound : ∀ i ∈ s.semaphore.ids, i < s.tasks.length := by
      intro i hi
      exact (List.getElem?_eq_some_iff.mp (h.waits.queued i hi)).1
    apply inv_enter (a := .queued) _ _ (by decide)
    . intro hmem
      exact absurd (hbound _ hmem) (Nat.lt_irrefl _)
    . refine ⟨?_, ⟨h.windowed.keeps, h.windowed.limited⟩, h.waits.nodup, ?_⟩
      . show s.semaphore.permits + (s.tasks ++ [Acquisition.queued]).count .acquired + 0 = _
        rw [List.count_append]
        exact h.permits
      . intro i hi
        show (s.tasks ++ [Acquisition.queued])[i]? = _
        rw [List.getElem?_append_left (hbound i hi)]
        exact h.waits.queued i hi
    . simp

theorem inv_resume (h : Inv config 0 s) (task : Nat) (elapsed : Elapsed)
    : Inv config 0 (s.resume config task elapsed) := by
  unfold resume
  split
  . next htask =>
    split
    . next hwoken =>
      have hresume := AsyncSemaphore.permits_resume hwoken
      have hpermits := h.permits
      have hids := AsyncSemaphore.ids_resume h.waits.nodup hwoken
      apply inv_granted (s := { s with semaphore := s.semaphore.resume task }) _ htask (by decide)
        (by rw [hids]; exact h.waits.nodup.not_mem_erase)
      refine ⟨?_, windowed_semaphore h.windowed _,
        h.waits.subset _ (by rw [hids]; exact h.waits.nodup.erase task) (by rw [hids]; exact List.erase_subset)⟩
      show (s.semaphore.resume task).permits + s.held + 1 = _
      omega
    . exact h
  . next htask => exact inv_enter h htask (by decide) (h.waits.free htask (by decide)) elapsed
  . exact h

theorem inv_cancel (h : Inv config 0 s) (task : Nat) : Inv config 0 (s.cancel task) := by
  have hpermits := h.permits
  unfold cancel
  split
  . next htask =>
    have hids := AsyncSemaphore.ids_cancel (i := task) h.waits.nodup
    have hwaits := h.waits.subset (s.semaphore.cancel task)
      (by rw [hids]; exact h.waits.nodup.erase task) (by rw [hids]; exact List.erase_subset)
    refine ⟨?_, windowed_place (windowed_semaphore h.windowed _) _ _,
      waits_place hwaits (by rw [hids]; exact h.waits.nodup.not_mem_erase) _⟩
    have hplaced := held_place_of_ne (s := { s with semaphore := s.semaphore.cancel task }) (b := .cancelled)
      htask (by decide) (by decide)
    show (s.semaphore.cancel task).permits + _ + 0 = _
    rw [hplaced, AsyncSemaphore.permits_cancel]
    exact hpermits
  . next htask =>
    refine ⟨?_, windowed_place h.windowed _ _, waits_place h.waits (h.waits.free htask (by decide)) _⟩
    have hplaced := held_place_of_ne (b := .cancelled) htask (by decide) (by decide)
    show s.semaphore.permits + _ + 0 = _
    rw [hplaced]
    exact hpermits
  . exact h

theorem inv_release (h : Inv config 0 s) (task : Nat) : Inv config 0 (s.release task) := by
  have hpermits := h.permits
  unfold release
  split
  . next htask =>
    have hids := AsyncSemaphore.ids_release s.semaphore
    have hwaits := h.waits.subset (s.semaphore.release) (by rw [hids]; exact h.waits.nodup)
      (by rw [hids]; exact List.Subset.refl _)
    refine ⟨?_, windowed_place (windowed_semaphore h.windowed _) _ _,
      waits_place hwaits (by rw [hids]; exact h.waits.free htask (by decide)) _⟩
    have hplaced := held_place (s := { s with semaphore := s.semaphore.release }) (b := .released) htask
    rw [if_pos rfl, if_neg (by decide)] at hplaced
    have hsame : ({ s with semaphore := s.semaphore.release } : ProviderRateLimiter).held = s.held := rfl
    show s.semaphore.release.permits + _ + 0 = _
    rw [AsyncSemaphore.permits_release]
    omega
  . exact h

theorem inv_step (h : Inv config 0 s) (request : LimiterRequest) : Inv config 0 (s.step config request).1 := by
  cases request with
  | acquire elapsed => exact inv_acquire h elapsed
  | resume task elapsed => exact inv_resume h task elapsed
  | cancel task => exact inv_cancel h task
  | release task => exact inv_release h task

theorem tasks_granted (config : RateLimitConfig) (s : ProviderRateLimiter) (task : Nat) (elapsed : Elapsed)
    : ∃ a, (a = .acquired ∨ a = .sleeping) ∧ (s.granted config task elapsed).tasks = s.tasks.set task a := by
  obtain ⟨htasks, -⟩ := tasks_checkRpmLimit config s elapsed.check
  unfold granted
  rcases hcheck : s.checkRpmLimit config elapsed.check with ⟨checked, allowed⟩
  rw [hcheck] at htasks
  rw [← htasks]
  cases allowed with
  | true => exact ⟨.acquired, .inl rfl, rfl⟩
  | false => exact ⟨.sleeping, .inr rfl, rfl⟩

theorem tasks_enter (config : RateLimitConfig) (s : ProviderRateLimiter) (task : Nat) (elapsed : Elapsed)
    : ∃ a, (a = .acquired ∨ a = .sleeping ∨ a = .queued) ∧
        (s.enter config task elapsed).tasks = s.tasks.set task a := by
  unfold enter
  rcases s.semaphore.acquire task with ⟨semaphore, taken⟩
  cases taken with
  | true =>
    obtain ⟨a, ha, htasks⟩ := tasks_granted config { s with semaphore } task elapsed
    exact ⟨a, by tauto, htasks⟩
  | false => exact ⟨.queued, by tauto, rfl⟩

theorem tasks_resume (config : RateLimitConfig) (s : ProviderRateLimiter) (task : Nat) (elapsed : Elapsed)
    (htask : s.tasks[task]? = some .queued ∨ s.tasks[task]? = some .sleeping)
    : ∃ a, (a = .acquired ∨ a = .sleeping ∨ a = .queued) ∧
        (s.resume config task elapsed).tasks = s.tasks.set task a := by
  unfold resume
  rcases htask with htask | htask
  . rw [htask]
    dsimp only
    split
    . obtain ⟨a, ha, htasks⟩ := tasks_granted config
        { s with semaphore := s.semaphore.resume task } task elapsed
      exact ⟨a, by tauto, htasks⟩
    . refine ⟨.queued, by tauto, ?_⟩
      obtain ⟨hlt, hget⟩ := List.getElem?_eq_some_iff.mp htask
      rw [← hget, List.set_getElem_self]
  . rw [htask]
    exact tasks_enter config s task elapsed

theorem tasks_acquire (config : RateLimitConfig) (s : ProviderRateLimiter) (elapsed : Elapsed)
    (hmax : ¬config.maxConcurrent < 0)
    : ∃ a, (a = .acquired ∨ a = .sleeping ∨ a = .queued) ∧
        (s.acquire config elapsed).tasks = (s.tasks ++ [Acquisition.queued]).set s.tasks.length a := by
  unfold acquire
  rw [if_neg hmax]
  exact tasks_enter config { s with tasks := s.tasks ++ [Acquisition.queued] } s.tasks.length elapsed

theorem tasks_cancel (htask : s.tasks[task]? = some .queued ∨ s.tasks[task]? = some .sleeping)
    : (s.cancel task).tasks = s.tasks.set task .cancelled := by
  unfold cancel
  cases htask with
  | inl htask =>
    rw [htask]
    rfl
  | inr htask =>
    rw [htask]
    rfl

theorem set_released {other : Nat} {tasks : List Acquisition} (htask : tasks[task]? = some .released)
    (hother : tasks[other]? = some a) (hbefore : a ≠ .released) (b : Acquisition)
    : (tasks.set other b)[task]? = some .released := by
  have hne : other ≠ task := by
    rintro rfl
    rw [htask] at hother
    exact hbefore (Option.some_inj.mp hother).symm
  rw [List.getElem?_set_ne hne]
  exact htask

theorem released_step (h : s.tasks[task]? = some .released) (request : LimiterRequest)
    : (s.step config request).1.tasks[task]? = some .released := by
  cases request with
  | acquire elapsed =>
    show (s.acquire config elapsed).tasks[task]? = _
    have hlt := (List.getElem?_eq_some_iff.mp h).1
    by_cases hmax : config.maxConcurrent < 0
    . unfold acquire
      rw [if_pos hmax]
      exact h
    . obtain ⟨a, -, htasks⟩ := tasks_acquire config s elapsed hmax
      rw [htasks, List.getElem?_set_ne (Nat.ne_of_gt hlt), List.getElem?_append_left hlt]
      exact h
  | resume other elapsed =>
    show (s.resume config other elapsed).tasks[task]? = _
    by_cases hqueued : s.tasks[other]? = some .queued ∨ s.tasks[other]? = some .sleeping
    . obtain ⟨a, -, htasks⟩ := tasks_resume config s other elapsed hqueued
      rw [htasks]
      cases hqueued with
      | inl hother => exact set_released h hother (by decide) a
      | inr hother => exact set_released h hother (by decide) a
    . unfold resume
      split
      . next hother => exact absurd (.inl hother) hqueued
      . next hother => exact absurd (.inr hother) hqueued
      . exact h
  | cancel other =>
    show (s.cancel other).tasks[task]? = _
    unfold cancel
    split
    . next hother => exact set_released h hother (by decide) .cancelled
    . next hother => exact set_released h hother (by decide) .cancelled
    . exact h
  | release other =>
    show (s.release other).tasks[task]? = _
    unfold release
    split
    . next hother => exact set_released h hother (by decide) .released
    . exact h

theorem release_of_released (h : s.tasks[task]? = some .released) : s.release task = s := by
  unfold release
  rw [h]

theorem release_final (h : s.tasks[task]? = some .acquired) (requests : List LimiterRequest)
    : (Machine.final (step config) (s.release task) requests).release task
        =
      Machine.final (step config) (s.release task) requests := by
  apply release_of_released
  have hlt := (List.getElem?_eq_some_iff.mp h).1
  apply Machine.inv_final (I := fun s : ProviderRateLimiter => s.tasks[task]? = some .released)
  . intro s request hs
    exact released_step hs request
  . unfold release
    rw [h]
    exact List.getElem?_set_self hlt

end ProviderRateLimiter

end Llm
end MemStack
