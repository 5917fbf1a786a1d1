import MemStack.Sandbox.ResourcePool

/-!
This module contains just when the pool keeps track of its resources: each is available or in use, no id is
handed out twice, and what left the pool was cleaned up once.
-/

namespace MemStack
namespace Sandbox

def Request.uuid? {T : Type} : Request T → Option String
  | .acquire _ outside => some outside.uuid
  | .resume _ outside => some outside.uuid
  | _ => none

def Request.Ends {T : Type} (id : String) : Request T → Prop
  | .release id' => id' = id
  | .remove id' => id' = id
  | .close => True
  | _ => False

def ResourcePool.TakeRaises {T : Type} (config : PoolConfig T) (outside : Outside T) (pool : ResourcePool T) : Prop :=
  outside.valid = none ∧
    ∃ id resource, nextIter outside pool.available = some id ∧ pool.resources.get id = some resource ∧
      config.truthy resource.value = true

def Request.ValidateRaises {T : Type} (config : PoolConfig T) (pool : ResourcePool T) : Request T → Prop
  | .acquire resourceId outside =>
    ¬ pool.isClosed ∧ resourceId.filter (· ≠ "") = none ∧ pool.TakeRaises config outside
  | .resume waiter outside => pool.waiters[waiter]? = some true ∧ pool.TakeRaises config outside
  | _ => False

namespace ResourcePool

variable {T : Type} {config : PoolConfig T} {outside : Outside T} {pool : ResourcePool T} {id : String}

@[simp]
theorem mem_discard {ids : List String} {id id' : String}
    : id' ∈ discard ids id ↔ id' ∈ ids ∧ id' ≠ id := by
  simp [discard]

theorem discard_of_notMem {ids : List String} (h : id ∉ ids) : discard ids id = ids := by
  apply List.filter_eq_self.mpr
  intro id' hid'
  rw [decide_eq_true_eq]
  intro heq
  rw [heq] at hid'
  exact h hid'

def cleans (config : PoolConfig T) (resource : Resource T) : Bool :=
  config.truthy resource.value && config.hasCleanup

structure Valid (config : PoolConfig T) (pool : ResourcePool T) : Prop where
  disjoint : ∀ id ∈ pool.available, id ∉ pool.inUse
  mem_keys_iff : ∀ id, id ∈ pool.resources.keys ↔ id ∈ pool.available ∨ id ∈ pool.inUse
  size_le : pool.resources.entries.length ≤ config.maxSize
  serials_eq : pool.made.map (·.serial) = List.range pool.made.length
  -- What was made is in the pool or was removed, and what was removed was cleaned up in that order.
  accounted : ∃ removed, pool.made.Perm (pool.resources.values ++ removed) ∧
    pool.cleanedUp = removed.filter (cleans config)

theorem valid_empty : Valid config {} := by
  refine ⟨?_, ?_, Nat.zero_le _, rfl, [], List.Perm.nil, rfl⟩
  . intro id hid
    cases hid
  . intro id
    simp [Dict.keys, Dict.empty]

theorem Valid.made_nodup (h : Valid config pool) : pool.made.Nodup := by
  apply List.Nodup.of_map (·.serial)
  rw [h.serials_eq]
  apply List.nodup_range

section Operations

theorem cleanup_eq (resource : Option (Resource T))
    : pool.cleanup config resource
        =
      { pool with cleanedUp := pool.cleanedUp ++ resource.toList.filter (cleans config) } := by
  unfold cleanup
  cases resource with
  | none => simp
  | some resource =>
    dsimp only
    split
    . next h => simp [cleans, h]
    . next h => simp [cleans, h]

theorem remove_eq
    : pool.remove config id
        =
      { pool with
        available := discard pool.available id
        inUse := discard pool.inUse id
        resources := pool.resources.erase id
        cleanedUp := pool.cleanedUp ++ (pool.resources.get id).toList.filter (cleans config)
      } := by
  unfold remove
  rw [cleanup_eq]

theorem values_perm_erase (resources : Dict String (Resource T)) (id : String)
    : resources.values.Perm ((resources.get id).toList ++ (resources.erase id).values) := by
  cases hget : resources.get id with
  | none =>
    rw [Dict.get_eq_none] at hget
    rw [Dict.erase_of_notMem hget]
    rfl
  | some resource => apply Dict.values_perm_of_get hget

theorem Valid.remove (h : Valid config pool) (id : String) : Valid config (pool.remove config id) := by
  rw [remove_eq]
  refine ⟨?_, ?_, ?_, h.serials_eq, ?_⟩
  . intro id' hid'
    rw [mem_discard] at hid' ⊢
    intro hinUse
    apply h.disjoint id' hid'.1 hinUse.1
  . intro id'
    have hkeys := h.mem_keys_iff id'
    rw [Dict.mem_keys] at hkeys ⊢
    simp only [Dict.get_erase, mem_discard]
    by_cases heq : id' = id
    . simp [heq]
    . simp [heq, hkeys]
  . apply Nat.le_trans (Dict.length_entries_erase_le _ _)
    apply h.size_le
  . rcases h.accounted with ⟨removed, hperm, hcleaned⟩
    refine ⟨removed ++ (pool.resources.get id).toList, ?_, ?_⟩
    . apply hperm.trans
      apply ((values_perm_erase pool.resources id).append_right removed).trans
      rw [List.append_assoc]
      apply List.perm_append_comm.trans
      rw [List.append_assoc]
    . dsimp only
      rw [hcleaned, List.filter_append]

theorem Valid.use (h : Valid config pool) (hid : id ∈ pool.available)
    : Valid config { pool with available := discard pool.available id, inUse := pool.inUse.insert id } := by
  refine ⟨?_, ?_, h.size_le, h.serials_eq, h.accounted⟩
  . intro id' hid'
    rw [mem_discard] at hid'
    rw [List.mem_insert_iff]
    intro hinUse
    cases hinUse with
    | inl heq => exact hid'.2 heq
    | inr hmem => exact h.disjoint id' hid'.1 hmem
  . intro id'
    rw [h.mem_keys_iff, mem_discard, List.mem_insert_iff]
    by_cases heq : id' = id
    . simp [heq, hid]
    . simp [heq]

theorem Valid.release (h : Valid config pool) (id : String) : Valid config (pool.release id) := by
  unfold ResourcePool.release
  split
  . next hid =>
    refine ⟨?_, ?_, h.size_le, h.serials_eq, h.accounted⟩
    . intro id' hid'
      rw [mem_discard]
      rw [List.mem_insert_iff] at hid'
      intro hinUse
      cases hid' with
      | inl heq => exact hinUse.2 heq
      | inr hmem => exact h.disjoint id' hmem hinUse.1
    . intro id'
      rw [h.mem_keys_iff, mem_discard, List.mem_insert_iff]
      by_cases heq : id' = id
      . simp [heq, hid]
      . simp [heq]
  . exact h

theorem Valid.create (h : Valid config pool) (hid : id ∉ pool.resources.keys)
    (hsize : pool.resources.entries.length < config.maxSize)
    : Valid config (pool.createResource outside id).1 := by
  unfold createResource
  split
  . have hfree := hid
    rw [h.mem_keys_iff, not_or] at hfree
    refine ⟨?_, ?_, ?_, ?_, ?_⟩
    . intro id' hid'
      rw [List.mem_insert_iff]
      intro hinUse
      cases hinUse with
      | inl heq =>
        rw [heq] at hid'
        exact hfree.1 hid'
      | inr hmem => exact h.disjoint id' hid' hmem
    . intro id'
      rw [Dict.mem_keys_set, h.mem_keys_iff, List.mem_insert_iff]
      tauto
    . apply Nat.le_trans (Dict.length_entries_set_le _ _ _)
      exact hsize
    . dsimp only
      rw [List.map_append, h.serials_eq, List.length_append, List.length_singleton, List.range_succ]
      rfl
    . rcases h.accounted with ⟨removed, hperm, hcleaned⟩
      refine ⟨removed, ?_, hcleaned⟩
      dsimp only
      rw [Dict.values_set_of_notMem hid, List.append_assoc]
      apply (hperm.append_right _).trans
      rw [List.append_assoc]
      apply List.Perm.append_left
      apply List.perm_append_comm
  . exact h

theorem tryTake_cases (h : Valid config pool)
    : (pool.available = [] ∧ pool.tryTakeValidatedResource config outside = (pool, .ok none)) ∨
      (∃ id ∈ pool.available, pool.tryTakeValidatedResource config outside =
        ({ pool with available := discard pool.available id, inUse := pool.inUse.insert id }, .ok (some id))) ∨
      (∃ id ∈ pool.available,
        pool.tryTakeValidatedResource config outside = (pool.remove config id, .ok none)) ∨
      (TakeRaises config outside pool ∧ ∃ id ∈ pool.available, pool.tryTakeValidatedResource config outside =
        ({ pool with available := discard pool.available id }, .error .validate)) := by
  unfold tryTakeValidatedResource
  split
  . next hnone =>
    left
    refine ⟨?_, rfl⟩
    unfold nextIter at hnone
    rw [List.getElem?_eq_none_iff] at hnone
    rw [← List.length_eq_zero_iff]
    by_contra hpos
    have := Nat.mod_lt outside.pick (Nat.pos_of_ne_zero hpos)
    omega
  . next id hid =>
    have hmem := List.mem_of_getElem? hid
    right
    dsimp only
    split
    . exact .inl ⟨id, hmem, rfl⟩
    . right
      left
      refine ⟨id, hmem, ?_⟩
      rw [remove_eq, cleanup_eq, discard_of_notMem (h.disjoint id hmem)]
    . next hraises =>
      right
      right
      split at hraises
      . next htruthy =>
        rw [Option.any_eq_true] at htruthy
        obtain ⟨resource, hget, htruthy⟩ := htruthy
        exact ⟨⟨hraises, id, resource, hid, hget, htruthy⟩, id, hmem, rfl⟩
      . cases hraises

theorem tryTake_of_raises (hraises : TakeRaises config outside pool)
    : ∃ id ∈ pool.resources.keys, id ∈ pool.available ∧ pool.tryTakeValidatedResource config outside =
        ({ pool with available := discard pool.available id }, .error .validate) := by
  obtain ⟨hvalid, id, resource, hid, hget, htruthy⟩ := hraises
  refine ⟨id, ?_, List.mem_of_getElem? hid, ?_⟩
  . rw [Dict.mem_keys]
    exact ⟨resource, hget⟩
  . unfold tryTakeValidatedResource
    rw [hid]
    dsimp only
    rw [hget, Option.any_some, if_pos htruthy, hvalid]

end Operations

section Acquire

structure Acquires (config : PoolConfig T) (pool pool' : ResourcePool T) (reply : Reply) : Prop where
  valid : Valid config pool'
  acquired : ∀ id, reply = .acquired id → id ∉ pool.inUse ∧ id ∈ pool'.inUse
  keeps : ∀ id ∈ pool.inUse, id ∈ pool'.inUse

theorem Acquires.idle {pool' : ResourcePool T} {reply : Reply} (h : Valid config pool')
    (hinUse : pool'.inUse = pool.inUse) (hreply : ∀ id, reply ≠ .acquired id)
    : Acquires config pool pool' reply := by
  refine ⟨h, ?_, ?_⟩
  . intro id hid
    exact absurd hid (hreply id)
  . rw [hinUse]
    simp

theorem Acquires.of_inUse_eq {pool₁ pool' : ResourcePool T} {reply : Reply}
    (h : Acquires config pool₁ pool' reply) (hinUse : pool₁.inUse = pool.inUse)
    : Acquires config pool pool' reply := by
  refine ⟨h.valid, ?_, ?_⟩
  . rw [← hinUse]
    exact h.acquired
  . rw [← hinUse]
    exact h.keeps

theorem use_acquires (h : Valid config pool) (hid : id ∈ pool.available)
    : Acquires config pool
        { pool with available := discard pool.available id, inUse := pool.inUse.insert id }
        (.acquired id) := by
  refine ⟨h.use hid, ?_, ?_⟩
  . rintro _ ⟨rfl⟩
    refine ⟨h.disjoint _ hid, ?_⟩
    apply List.mem_insert_self
  . intro id' hid'
    apply List.mem_insert_of_mem hid'

theorem createResource_acquires (h : Valid config pool) (hid : id ∉ pool.resources.keys)
    (hsize : pool.resources.entries.length < config.maxSize)
    : Acquires config pool (pool.createResource outside id).1 (pool.createResource outside id).2 := by
  refine ⟨h.create hid hsize, ?_, ?_⟩
  . unfold createResource
    split
    . rintro _ ⟨rfl⟩
      rw [h.mem_keys_iff, not_or] at hid
      refine ⟨hid.2, ?_⟩
      apply List.mem_insert_self
    . rintro _ ⟨⟩
  . unfold createResource
    split
    . intro id' hid'
      apply List.mem_insert_of_mem hid'
    . simp

theorem createOrWait_acquires (h : Valid config pool) (hfresh : outside.uuid ∉ pool.resources.keys)
    : Acquires config pool (pool.createOrWait config outside).1 (pool.createOrWait config outside).2 := by
  unfold createOrWait
  split
  . next hsize => apply createResource_acquires h hfresh hsize
  . split
    . apply Acquires.idle h rfl
      simp
    . apply Acquires.idle
      . exact ⟨h.disjoint, h.mem_keys_iff, h.size_le, h.serials_eq, h.accounted⟩
      . rfl
      . simp

theorem acquireAny_acquires (h : Valid config pool) (hfresh : outside.uuid ∉ pool.resources.keys)
    (hraises : ¬ TakeRaises config outside pool)
    : Acquires config pool (pool.acquireAny config outside).1 (pool.acquireAny config outside).2 := by
  unfold acquireAny
  rcases @tryTake_cases _ _ outside _ h with ⟨_, htake⟩ | ⟨id, hid, htake⟩ | ⟨id, hid, htake⟩ | ⟨htake, _⟩
  . rw [htake]
    apply createOrWait_acquires h hfresh
  . rw [htake]
    apply use_acquires h hid
  . rw [htake]
    have hinUse : (pool.remove config id).inUse = pool.inUse := by
      rw [remove_eq]
      apply discard_of_notMem (h.disjoint id hid)
    apply Acquires.of_inUse_eq _ hinUse
    apply createOrWait_acquires (h.remove id)
    rw [remove_eq]
    dsimp only
    rw [Dict.mem_keys] at hfresh ⊢
    simp only [Dict.get_erase]
    intro hget
    apply hfresh
    split at hget
    . simp at hget
    . exact hget
  . exact absurd htake hraises

theorem acquireSpecific_acquires (h : Valid config pool)
    : Acquires config pool (pool.acquireSpecific config outside id).1
        (pool.acquireSpecific config outside id).2 := by
  unfold acquireSpecific
  split
  . next hid => apply use_acquires h hid
  . next hnot =>
    split
    . apply Acquires.idle h rfl
      simp
    . next hnot' =>
      split
      . apply Acquires.idle h rfl
        simp
      . next hsize =>
        apply createResource_acquires h _ (Nat.lt_of_not_le hsize)
        rw [h.mem_keys_iff]
        tauto

theorem acquire_acquires {resourceId : Option String} (h : Valid config pool)
    (hfresh : outside.uuid ∉ pool.resources.keys)
    (hraises : ¬ (Request.acquire resourceId outside).ValidateRaises config pool)
    : Acquires config pool (pool.acquire config outside resourceId).1
        (pool.acquire config outside resourceId).2 := by
  unfold acquire
  split
  . apply Acquires.idle h rfl
    simp
  . next hopen =>
    split
    . apply acquireSpecific_acquires h
    . next hany =>
      apply acquireAny_acquires h hfresh
      intro htake
      exact hraises ⟨hopen, hany, htake⟩

theorem resume_acquires {waiter : Nat} (h : Valid config pool)
    (hfresh : outside.uuid ∉ pool.resources.keys)
    (hraises : ¬ (Request.resume waiter outside).ValidateRaises config pool)
    : Acquires config pool (pool.resume config outside waiter).1
        (pool.resume config outside waiter).2 := by
  unfold resume
  split
  . next hnotified =>
    have hvalid : Valid config { pool with waiters := pool.waiters.eraseIdx waiter } :=
      ⟨h.disjoint, h.mem_keys_iff, h.size_le, h.serials_eq, h.accounted⟩
    exact (acquireAny_acquires hvalid hfresh fun htake => hraises ⟨hnotified, htake⟩).of_inUse_eq rfl
  . apply Acquires.idle h rfl
    simp

theorem expire_acquires {waiter : Nat} {passOn : Bool} (h : Valid config pool)
    : Acquires config pool (pool.expire config waiter passOn).1
        (pool.expire config waiter passOn).2 := by
  unfold expire
  split
  . apply Acquires.idle
    . exact ⟨h.disjoint, h.mem_keys_iff, h.size_le, h.serials_eq, h.accounted⟩
    . rfl
    . simp
  . apply Acquires.idle h rfl
    simp

end Acquire

section Close

theorem valid_foldl_remove (ids : List String) (h : Valid config pool)
    : Valid config (ids.foldl (remove config) pool) := by
  induction ids generalizing pool with
  | nil => exact h
  | cons id ids ih => apply ih (h.remove id)

theorem Valid.close (h : Valid config pool) : Valid config (pool.close config) := by
  unfold ResourcePool.close
  split
  . exact h
  . have hclosed : Valid config { pool with isClosed := true } :=
      ⟨h.disjoint, h.mem_keys_iff, h.size_le, h.serials_eq, h.accounted⟩
    have hremoved := valid_foldl_remove pool.resources.keys hclosed
    exact ⟨hremoved.disjoint, hremoved.mem_keys_iff, hremoved.size_le, hremoved.serials_eq,
      hremoved.accounted⟩

end Close

section Run

variable {request : Request T}

def Fresh (request : Request T) (pool : ResourcePool T) : Prop :=
  ∀ uuid, request.uuid? = some uuid → uuid ∉ pool.resources.keys

theorem step_valid (h : Valid config pool) (hfresh : Fresh request pool)
    (hraises : ¬ request.ValidateRaises config pool)
    : Valid config (step config pool request).1 := by
  cases request with
  | acquire resourceId outside => apply (acquire_acquires h (hfresh _ rfl) hraises).valid
  | resume waiter outside => apply (resume_acquires h (hfresh _ rfl) hraises).valid
  | expire waiter passOn => apply (expire_acquires h).valid
  | release id => apply h.release id
  | remove id => apply h.remove id
  | close => apply h.close

theorem step_acquired (h : Valid config pool) (hfresh : Fresh request pool)
    (hraises : ¬ request.ValidateRaises config pool)
    (hreply : (step config pool request).2 = .acquired id)
    : id ∉ pool.inUse ∧ id ∈ (step config pool request).1.inUse := by
  cases request with
  | acquire resourceId outside => apply (acquire_acquires h (hfresh _ rfl) hraises).acquired id hreply
  | resume waiter outside => apply (resume_acquires h (hfresh _ rfl) hraises).acquired id hreply
  | expire waiter passOn => apply (expire_acquires h).acquired id hreply
  | release id => cases hreply
  | remove id => cases hreply
  | close => cases hreply

theorem step_keeps (h : Valid config pool) (hfresh : Fresh request pool)
    (hraises : ¬ request.ValidateRaises config pool) (hid : id ∈ pool.inUse)
    (hends : ¬ request.Ends id)
    : id ∈ (step config pool request).1.inUse := by
  cases request with
  | acquire resourceId outside => apply (acquire_acquires h (hfresh _ rfl) hraises).keeps id hid
  | resume waiter outside => apply (resume_acquires h (hfresh _ rfl) hraises).keeps id hid
  | expire waiter passOn => apply (expire_acquires h).keeps id hid
  | release id' =>
    unfold step release
    dsimp only
    split
    . rw [mem_discard]
      exact ⟨hid, fun heq => hends heq.symm⟩
    . exact hid
  | remove id' =>
    unfold step
    dsimp only
    rw [remove_eq, mem_discard]
    exact ⟨hid, fun heq => hends heq.symm⟩
  | close => exact absurd trivial hends

abbrev Run (T : Type) := List (Machine.Entry (ResourcePool T) (Request T) Reply)

def Holds (run : Run T) (i : Nat) (id : String) : Prop :=
  ∃ before e after, run = before ++ e :: after ∧ before.length = i ∧ e.reply = .acquired id ∧
    ∀ e' ∈ after, ¬ e'.request.Ends id

theorem holds_concat {run : Run T} {e : Machine.Entry (ResourcePool T) (Request T) Reply} {i : Nat}
    (h : Holds (run ++ [e]) i id)
    : (Holds run i id ∧ ¬ e.request.Ends id) ∨ (i = run.length ∧ e.reply = .acquired id) := by
  rcases h with ⟨before, e', after, hsplit, hi, hreply, hafter⟩
  cases after using List.reverseRecOn with
  | nil =>
    have hlast := List.append_inj' hsplit rfl
    right
    rw [List.cons.injEq] at hlast
    rw [hlast.1, hlast.2.1]
    exact ⟨hi.symm, hreply⟩
  | append_singleton after last =>
    rw [← List.cons_append, ← List.append_assoc] at hsplit
    have hlast := List.append_inj' hsplit rfl
    left
    rw [List.cons.injEq] at hlast
    refine ⟨⟨before, e', after, hlast.1, hi, hreply, ?_⟩, ?_⟩
    . intro e'' he''
      apply hafter
      simp [he'']
    . rw [hlast.2.1]
      apply hafter
      simp

structure RunInv (config : PoolConfig T) (run : Run T) (pool : ResourcePool T) : Prop where
  valid : Valid config pool
  inUse : ∀ i id, Holds run i id → id ∈ pool.inUse
  single : ∀ i j id, Holds run i id → Holds run j id → i = j

theorem step_runInv {run : Run T} (h : RunInv config run pool) (hfresh : Fresh request pool)
    (hraises : ¬ request.ValidateRaises config pool)
    : RunInv config (run ++ [Machine.entry (step config) pool request]) (step config pool request).1 := by
  refine ⟨step_valid h.valid hfresh hraises, ?_, ?_⟩
  . intro i id hholds
    cases holds_concat hholds with
    | inl hold => apply step_keeps h.valid hfresh hraises (h.inUse i id hold.1) hold.2
    | inr hnew => apply (step_acquired h.valid hfresh hraises hnew.2).2
  . intro i j id hi hj
    cases holds_concat hi with
    | inl hi =>
      cases holds_concat hj with
      | inl hj => apply h.single i j id hi.1 hj.1
      | inr hj => exact absurd (h.inUse i id hi.1) (step_acquired h.valid hfresh hraises hj.2).1
    | inr hi =>
      cases holds_concat hj with
      | inl hj => exact absurd (h.inUse j id hj.1) (step_acquired h.valid hfresh hraises hi.2).1
      | inr hj => rw [hi.1, hj.1]

structure Safe (config : PoolConfig T) (run : Run T) (pool : ResourcePool T) : Prop where
  disjoint : ∀ id ∈ pool.available, id ∉ pool.inUse
  mem_keys_iff : ∀ id, id ∈ pool.resources.keys ↔ id ∈ pool.available ∨ id ∈ pool.inUse
  size_le : pool.resources.entries.length ≤ config.maxSize
  single : ∀ i j id, Holds run i id → Holds run j id → i = j
  cleanedUp_nodup : pool.cleanedUp.Nodup
  cleanedUp : config.hasCleanup → ∀ resource ∈ pool.made, config.truthy resource.value →
    resource ∉ pool.resources.values → resource ∈ pool.cleanedUp

theorem RunInv.safe {run : Run T} (h : RunInv config run pool) : Safe config run pool := by
  obtain ⟨removed, hperm, hcleaned⟩ := h.valid.accounted
  have hnodup := hperm.nodup h.valid.made_nodup
  refine ⟨h.valid.disjoint, h.valid.mem_keys_iff, h.valid.size_le, h.single, ?_, ?_⟩
  . rw [hcleaned]
    apply List.Nodup.filter
    apply (List.nodup_append.mp hnodup).2.1
  . intro hcleanup resource hmade htruthy hgone
    rw [hcleaned, List.mem_filter]
    rw [hperm.mem_iff, List.mem_append] at hmade
    refine ⟨hmade.resolve_left hgone, ?_⟩
    rw [cleans, htruthy, hcleanup]
    rfl

theorem acquireAny_lost (hdisjoint : ∀ id ∈ pool.available, id ∉ pool.inUse)
    (hraises : TakeRaises config outside pool)
    : ∃ id ∈ (pool.acquireAny config outside).1.resources.keys,
        id ∉ (pool.acquireAny config outside).1.available ∧ id ∉ (pool.acquireAny config outside).1.inUse := by
  obtain ⟨id, hkey, hid, htake⟩ := tryTake_of_raises hraises
  unfold acquireAny
  rw [htake]
  refine ⟨id, hkey, ?_, hdisjoint id hid⟩
  dsimp only
  rw [mem_discard]
  exact fun hmem => hmem.2 rfl

theorem step_lost (h : Valid config pool) (hraises : request.ValidateRaises config pool)
    : ∃ id ∈ (step config pool request).1.resources.keys,
        id ∉ (step config pool request).1.available ∧ id ∉ (step config pool request).1.inUse := by
  cases request with
  | acquire resourceId outside =>
    obtain ⟨hopen, hany, htake⟩ := hraises
    have hstep : step config pool (.acquire resourceId outside) = pool.acquireAny config outside := by
      unfold step acquire
      dsimp only
      rw [if_neg hopen, hany]
    rw [hstep]
    exact acquireAny_lost h.disjoint htake
  | resume waiter outside =>
    obtain ⟨hnotified, htake⟩ := hraises
    have hstep : step config pool (.resume waiter outside)
        = { pool with waiters := pool.waiters.eraseIdx waiter }.acquireAny config outside := by
      unfold step resume
      dsimp only
      rw [if_pos hnotified]
    rw [hstep]
    exact acquireAny_lost h.disjoint htake
  | expire waiter passOn => cases hraises
  | release id => cases hraises
  | remove id => cases hraises
  | close => cases hraises

/--
Whatever the order of the operations, each resource of the pool is available or in use, never both, there
are at most as many as configured, no id is held by two acquirers, and a resource that left the pool was
cleaned up just once: after each operation, just when no validation raises.
-/
theorem pool_safe_iff (config : PoolConfig T) (requests : List (Request T))
    (hfresh : ∀ e ∈ Machine.transcript (step config) {} requests, Fresh e.request e.before)
    : History.AtEach (fun past e => Safe config (past ++ [e]) e.after) (Machine.transcript (step config) {} requests)
        ↔
      ∀ e ∈ Machine.transcript (step config) {} requests, ¬ e.request.ValidateRaises config e.before := by
  apply Machine.atEach_transcript_iff_forall (I := RunInv config) (D := fun pool request => Fresh request pool)
    (C := fun pool request => ¬ request.ValidateRaises config pool) _ _ requests hfresh
  . intro past pool request h hfresh
    refine ⟨⟨?_, fun hraises => (step_runInv h hfresh hraises).safe⟩, step_runInv h hfresh⟩
    intro hsafe hraises
    obtain ⟨id, hkey, havailable, hinUse⟩ := step_lost h.valid hraises
    exact ((hsafe.mem_keys_iff id).mp hkey).elim havailable hinUse
  . refine ⟨valid_empty, ?_, ?_⟩
    . rintro i id ⟨before, e, after, hsplit, _⟩
      simp at hsplit
    . rintro i j id ⟨before, e, after, hsplit, _⟩
      simp at hsplit

def validated (valid : Option Bool) (uuid : String) : Outside Nat where
  pick := 0
  valid
  made := some 8080
  uuid
  late := false

def twoResources : List (Request Nat) :=
  [.acquire none (validated (some true) "a"), .release "a", .acquire none (validated (some false) "b"),
    .acquire (some "c") (validated (some true) "d"), .release "b", .remove "c"]

instance decidableFresh : Decidable (Fresh request pool) :=
  inferInstanceAs (Decidable (∀ uuid ∈ request.uuid?, uuid ∉ pool.resources.keys))

theorem pool_safe_iff_of_twoResources
    : History.AtEach (fun past e => Safe { truthy := (· ≠ 0) } (past ++ [e]) e.after)
        (Machine.transcript (step { truthy := (· ≠ 0) }) {} twoResources) := by
  apply (pool_safe_iff { truthy := (· ≠ 0) } twoResources (by decide +kernel)).mpr
  intro e he
  have hvalid : ∀ request ∈ twoResources, ¬ request.ValidateRaises { truthy := (· ≠ 0) } e.before := by
    simp [twoResources, Request.ValidateRaises, TakeRaises, validated]
  exact hvalid _ (Machine.request_mem_of_mem he)

/--
A validation raises, and the only resource is neither available nor in use from then on.
-/
theorem resource_lost
    : ¬ ∀ (config : PoolConfig Nat) (requests : List (Request Nat)),
        (∀ e ∈ Machine.transcript (step config) {} requests, Fresh e.request e.before) →
        History.AtEach (fun past e => Safe config (past ++ [e]) e.after)
          (Machine.transcript (step config) {} requests) := by
  intro hclaim
  have hsafe := hclaim { maxSize := 1, truthy := (· ≠ 0) }
    [.acquire none (validated (some true) "a"), .release "a", .acquire none (validated none "b")] (by decide +kernel)
  have hlast := hsafe.get (n := 2) rfl
  have hkeys := (hlast.mem_keys_iff "a").mp (by decide +kernel)
  revert hkeys
  decide +kernel

end Run

end ResourcePool
end Sandbox
end MemStack
