import MemStack.Sandbox.PoolSafe

/-!
This module contains just when a closed pool stays empty.
-/

namespace MemStack
namespace Sandbox
namespace ResourcePool

variable {T : Type} {config : PoolConfig T} {outside : Outside T} {pool : ResourcePool T}
  {request : Request T} {id : String}

def EmptyIfClosed (pool : ResourcePool T) : Prop :=
  pool.isClosed → pool.resources.keys = []

structure StaysClosed (e : Machine.Entry (ResourcePool T) (Request T) Reply) : Prop where
  isClosed : e.before.isClosed → e.after.isClosed
  empty : e.after.isClosed → e.after.resources.keys = []
  made : e.before.isClosed → e.after.made = e.before.made
  acquired : e.before.isClosed → ∀ id, e.reply ≠ .acquired id

def WakesInClosed (request : Request T) (pool : ResourcePool T) : Prop :=
  pool.isClosed ∧
    ∃ waiter outside value, request = .resume waiter outside ∧ pool.waiters[waiter]? = some true ∧
      outside.made = some value

section Operations

theorem isClosed_remove : (pool.remove config id).isClosed = pool.isClosed := by
  rw [remove_eq]

theorem isClosed_createResource : (pool.createResource outside id).1.isClosed = pool.isClosed := by
  unfold createResource
  split <;> rfl

theorem isClosed_acquireSpecific
    : (pool.acquireSpecific config outside id).1.isClosed = pool.isClosed := by
  unfold acquireSpecific
  split
  . rfl
  . split
    . rfl
    . split
      . rfl
      . apply isClosed_createResource

theorem isClosed_tryTake
    : (pool.tryTakeValidatedResource config outside).1.isClosed = pool.isClosed := by
  unfold tryTakeValidatedResource
  split
  . rfl
  . dsimp only
    split
    . rfl
    . rw [cleanup_eq]
    . rfl

theorem isClosed_createOrWait : (pool.createOrWait config outside).1.isClosed = pool.isClosed := by
  unfold createOrWait
  split
  . apply isClosed_createResource
  . split <;> rfl

theorem isClosed_acquireAny : (pool.acquireAny config outside).1.isClosed = pool.isClosed := by
  unfold acquireAny
  have htake := @isClosed_tryTake _ config outside pool
  dsimp only
  split
  . apply htake
  . rw [isClosed_createOrWait]
    apply htake
  . apply htake

theorem get_of_empty (h : pool.resources.keys = []) (id : String) : pool.resources.get id = none := by
  rw [Dict.get_eq_none, h]
  apply List.not_mem_nil

theorem tryTake_of_empty (h : pool.resources.keys = [])
    : (pool.tryTakeValidatedResource config outside).2 = .ok none ∧
      (pool.tryTakeValidatedResource config outside).1.resources.keys = [] ∧
      (pool.tryTakeValidatedResource config outside).1.made = pool.made := by
  unfold tryTakeValidatedResource
  split
  . exact ⟨rfl, h, rfl⟩
  . next id _ =>
    have hget := get_of_empty h id
    dsimp only
    rw [hget, Option.any_none, if_neg Bool.false_ne_true]
    refine ⟨rfl, ?_, rfl⟩
    unfold cleanup
    dsimp only
    rw [Dict.erase_of_notMem]
    . exact h
    . rw [h]
      apply List.not_mem_nil

theorem acquireAny_of_empty (h : pool.resources.keys = [])
    : pool.acquireAny config outside
        =
      (pool.tryTakeValidatedResource config outside).1.createResource outside outside.uuid := by
  have htake := @tryTake_of_empty _ config outside _ h
  have hlength := congrArg List.length htake.2.1
  rw [Dict.keys, List.length_map, List.length_nil] at hlength
  unfold acquireAny
  dsimp only
  rw [htake.1]
  unfold createOrWait
  dsimp only
  rw [if_pos]
  rw [hlength]
  apply config.maxSize_pos

theorem keys_erase (resources : Dict String (Resource T)) (id : String)
    : (resources.erase id).keys = discard resources.keys id := by
  unfold Dict.keys Dict.erase discard
  rw [List.filter_map]
  rfl

theorem foldl_discard_eq_nil {ids ids' : List String} (h : ∀ id ∈ ids, id ∈ ids')
    : ids'.foldl discard ids = [] := by
  induction ids' generalizing ids with
  | nil =>
    apply List.eq_nil_iff_forall_not_mem.mpr
    intro id hid
    cases h id hid
  | cons id' ids' ih =>
    apply ih
    intro id hid
    rw [mem_discard] at hid
    have := h id hid.1
    rw [List.mem_cons] at this
    exact this.resolve_left hid.2

theorem keys_foldl_remove (ids : List String)
    : (ids.foldl (remove config) pool).resources.keys = ids.foldl discard pool.resources.keys := by
  induction ids generalizing pool with
  | nil => rfl
  | cons id ids ih =>
    rw [List.foldl_cons, List.foldl_cons, ih, remove_eq]
    dsimp only
    rw [keys_erase]

theorem isClosed_foldl_remove (ids : List String)
    : (ids.foldl (remove config) pool).isClosed = pool.isClosed := by
  induction ids generalizing pool with
  | nil => rfl
  | cons id ids ih =>
    rw [List.foldl_cons, ih]
    apply isClosed_remove

theorem close_of_closed (h : pool.isClosed) : pool.close config = pool := by
  unfold close
  rw [if_pos h]

theorem close_of_open (h : ¬ pool.isClosed)
    : (pool.close config).isClosed ∧ (pool.close config).resources.keys = [] := by
  unfold close
  rw [if_neg h]
  dsimp only
  rw [isClosed_foldl_remove, keys_foldl_remove]
  refine ⟨rfl, ?_⟩
  apply foldl_discard_eq_nil
  intro id hid
  exact hid

end Operations

section Step

theorem isClosed_step_of_open (hclose : request ≠ .close)
    : (step config pool request).1.isClosed = pool.isClosed := by
  cases request with
  | acquire resourceId outside =>
    unfold step acquire
    dsimp only
    split
    . rfl
    . split
      . apply isClosed_acquireSpecific
      . apply isClosed_acquireAny
  | resume waiter outside =>
    unfold step resume
    dsimp only
    split
    . apply isClosed_acquireAny
    . rfl
  | expire waiter passOn =>
    unfold step expire
    dsimp only
    split <;> rfl
  | release id =>
    unfold step release
    dsimp only
    split <;> rfl
  | remove id => apply isClosed_remove
  | close => exact absurd rfl hclose

theorem staysClosed_of_open (hopen : ¬ pool.isClosed)
    : StaysClosed (Machine.entry (step config) pool request) := by
  refine ⟨fun h => absurd h hopen, ?_, fun h => absurd h hopen, fun h => absurd h hopen⟩
  intro hafter
  by_cases hclose : request = .close
  . cases hclose
    apply (close_of_open hopen).2
  . exact absurd ((isClosed_step_of_open hclose).symm.trans hafter) hopen

theorem staysClosed_of_not_woken (hclosed : pool.isClosed)
    (hreply : ∀ id, (step config pool request).2 ≠ .acquired id)
    (hkeys : (step config pool request).1.resources.keys = [])
    (hmade : (step config pool request).1.made = pool.made)
    : StaysClosed (Machine.entry (step config) pool request) := by
  refine ⟨?_, fun _ => hkeys, fun _ => hmade, fun _ => hreply⟩
  intro _
  by_cases hclose : request = .close
  . cases hclose
    unfold Machine.entry step
    dsimp only
    rw [close_of_closed hclosed]
    exact hclosed
  . exact (isClosed_step_of_open hclose).trans hclosed

theorem staysClosed_iff (h : pool.EmptyIfClosed)
    : StaysClosed (Machine.entry (step config) pool request) ↔ ¬ WakesInClosed request pool := by
  by_cases hclosed : pool.isClosed
  . have hempty := h hclosed
    cases request with
    | acquire resourceId outside =>
      rw [iff_true_right (by simp [WakesInClosed])]
      have hstep : step config pool (.acquire resourceId outside)
          = (pool, .raised (.resource s!"Pool '{config.poolName}' is closed" "pool")) := by
        unfold step acquire
        exact if_pos hclosed
      apply staysClosed_of_not_woken hclosed
      . rw [hstep]
        simp
      . rw [hstep]
        exact hempty
      . rw [hstep]
    | resume waiter outside =>
      by_cases hnotified : pool.waiters[waiter]? = some true
      . have hstep : step config pool (.resume waiter outside)
            = { pool with waiters := pool.waiters.eraseIdx waiter }.acquireAny config outside := by
          unfold step resume
          exact if_pos hnotified
        rw [acquireAny_of_empty (by exact hempty)] at hstep
        unfold createResource at hstep
        cases hmade : outside.made with
        | some value =>
          rw [hmade] at hstep
          rw [iff_false_left]
          . rw [not_not]
            exact ⟨hclosed, waiter, outside, value, rfl, hnotified, hmade⟩
          . intro hstays
            apply hstays.acquired hclosed outside.uuid
            unfold Machine.entry
            rw [hstep]
        | none =>
          rw [hmade] at hstep
          rw [iff_true_right]
          . have htake := @tryTake_of_empty _ config outside
              { pool with waiters := pool.waiters.eraseIdx waiter } hempty
            apply staysClosed_of_not_woken hclosed
            . rw [hstep]
              simp
            . rw [hstep]
              exact htake.2.1
            . rw [hstep]
              exact htake.2.2
          . rintro ⟨_, waiter', outside', value, heq, _, hvalue⟩
            cases heq
            rw [hmade] at hvalue
            cases hvalue
      . have hstep : step config pool (.resume waiter outside) = (pool, .waiting) := by
          unfold step resume
          exact if_neg hnotified
        rw [iff_true_right]
        . apply staysClosed_of_not_woken hclosed
          . rw [hstep]
            simp
          . rw [hstep]
            exact hempty
          . rw [hstep]
        . rintro ⟨_, waiter', outside', value, heq, hwaiter, _⟩
          cases heq
          exact hnotified hwaiter
    | expire waiter passOn =>
      rw [iff_true_right (by simp [WakesInClosed])]
      apply staysClosed_of_not_woken hclosed
      . unfold step expire
        dsimp only
        split <;> simp
      . unfold step expire
        dsimp only
        split <;> exact hempty
      . unfold step expire
        dsimp only
        split <;> rfl
    | release id =>
      rw [iff_true_right (by simp [WakesInClosed])]
      apply staysClosed_of_not_woken hclosed
      . simp [step]
      . unfold step release
        dsimp only
        split <;> exact hempty
      . unfold step release
        dsimp only
        split <;> rfl
    | remove id =>
      rw [iff_true_right (by simp [WakesInClosed])]
      apply staysClosed_of_not_woken hclosed
      . simp [step]
      . unfold step
        dsimp only
        rw [remove_eq]
        dsimp only
        rw [keys_erase, hempty]
        rfl
      . unfold step
        dsimp only
        rw [remove_eq]
    | close =>
      rw [iff_true_right (by simp [WakesInClosed])]
      have hstep : (step config pool .close).1 = pool := close_of_closed hclosed
      apply staysClosed_of_not_woken hclosed
      . simp [step]
      . rw [hstep]
        exact hempty
      . rw [hstep]
  . rw [iff_true_left (staysClosed_of_open hclosed)]
    intro hwakes
    exact hclosed hwakes.1

end Step

section Run

/-
A closed pool stays closed and empty and hands nothing out, just when no acquirer that was waiting when it
was closed goes on while the factory works.
-/
theorem closed_stays_closed_iff (config : PoolConfig T) (requests : List (Request T))
    : (∀ e ∈ Machine.transcript (step config) {} requests, StaysClosed e)
        ↔
      ∀ e ∈ Machine.transcript (step config) {} requests, ¬ WakesInClosed e.request e.before := by
  apply @Machine.forall_transcript_iff _ _ _ (step config)
    (fun pool request => ¬ WakesInClosed request pool) EmptyIfClosed
  . intro pool request h
    refine ⟨staysClosed_iff h, ?_⟩
    intro hwakes
    apply ((staysClosed_iff h).mpr hwakes).empty
  . intro hclosed
    cases hclosed

def freshPort (port : Nat) (uuid : String) : Outside Nat where
  pick := 0
  valid := some true
  made := some port
  uuid := uuid
  late := false

/--
The second acquirer waits for the only resource, and gets a new one after the pool was closed.
-/
theorem waiter_acquires_after_close
    : ¬ ∀ (config : PoolConfig Nat) (requests : List (Request Nat)),
        ∀ e ∈ Machine.transcript (step config) {} requests, StaysClosed e := by
  intro hclaim
  have hlast := hclaim { maxSize := 1, truthy := (· ≠ 0) }
    [.acquire none (freshPort 8080 "a"), .acquire none (freshPort 8081 "b"), .close,
      .resume 0 (freshPort 8082 "c")] _ (List.mem_of_mem_getLast? rfl)
  apply hlast.acquired (by decide +kernel) "c"
  decide +kernel

end Run

end ResourcePool
end Sandbox
end MemStack
