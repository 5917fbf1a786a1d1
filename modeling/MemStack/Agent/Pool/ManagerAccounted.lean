import MemStack.Agent.Pool.Manager
import MemStack.Util.Lists

/-!
This module contains when the accounting of the agent pool is right, and what every step keeps of it as long as only
registered instances are removed and only free keys are taken.
-/

namespace MemStack
namespace Agent
namespace Pool

def ResourceQuota.Nonneg (quota : ResourceQuota) : Prop :=
  0 ≤ quota.memoryRequestMb ∧ 0 ≤ quota.cpuRequestCores

structure PoolConfig.Nonneg (config : PoolConfig) : Prop where
  instances : 0 ≤ config.maxTotalInstances
  memory : 0 ≤ config.maxTotalMemoryMb
  cpu : 0 ≤ config.maxTotalCpuCores

namespace AgentInstanceConfig

variable (config : AgentInstanceConfig)

def allocationKey : String :=
  Pool.allocationKey config.tenantId config.projectId

def load : Load :=
  Load.ofInstance config.quota.memoryRequestMb config.quota.cpuRequestCores

def loadAt (key : String) : Load :=
  if key = config.allocationKey then config.load else 0

structure Alike (other : AgentInstanceConfig) : Prop where
  tenantId : other.tenantId = config.tenantId
  projectId : other.projectId = config.projectId
  agentMode : other.agentMode = config.agentMode
  quota : other.quota = config.quota

end AgentInstanceConfig

def OverrideFits (tenantId projectId : String) (configOverride : Option AgentInstanceConfig) : Prop :=
  ∀ config ∈ configOverride, config.tenantId = tenantId ∧ config.projectId = projectId ∧ config.quota.Nonneg

structure Creation.Valid (creation : Creation) : Prop where
  tenantId : creation.config.tenantId = creation.tenantId
  projectId : creation.config.projectId = creation.projectId
  quota : creation.config.quota.Nonneg

def Operation.Valid : Operation → Prop
  | .getOrCreateInstance tenantId projectId _ configOverride => OverrideFits tenantId projectId configOverride
  | .remove _ .finish => True
  | .remove _ (.migrate config) => config.quota.Nonneg
  | .remove _ _ => False
  | _ => True

def Place.locked : Place → Bool
  | .stopping _ _ => true
  | .releasing _ _ => true
  | _ => false

def Place.held (key : String) : Place → Load
  | .initializing _ creation => creation.config.loadAt key
  | .failing _ creation => creation.config.loadAt key
  | _ => 0

namespace AgentPoolManager

section Model

variable (s : AgentPoolManager)

def Registered (instanceId : Nat) : Prop :=
  ∃ i, s.created[instanceId]? = some i ∧ s.instances.get i.config.key = some instanceId

def registeredAt (key : String) : Nat :=
  s.instances.count fun instanceId => (s.created[instanceId]?).any (·.config.allocationKey = key)

def activeInstances (key : String) : Int :=
  (s.resources.allocations.get key).elim 0 (·.activeInstances)

def Idle : Prop :=
  ∀ place ∈ s.tasks, place = .finished

def countsExactly (task : Nat) : Bool :=
  match s.tasks[task]? with
  | some (.releasing instanceId _) =>
    (s.created[instanceId]?).all fun i => s.resources.subtractsExactly i.config.allocationKey i.config.load
  | some (.acquiring creation) =>
    let quota := creation.config.quota
    let (_, acquired) :=
      s.resources.acquireInstance creation.tenantId creation.projectId quota.memoryRequestMb quota.cpuRequestCores
    !acquired || s.resources.addsExactly (allocationKey creation.tenantId creation.projectId) creation.config.load
  | some (.abandoning creation) => s.resources.releasesExactly (allocationKey creation.tenantId creation.projectId)
  | some (.failing _ creation) =>
    s.resources.subtractsExactly (allocationKey creation.tenantId creation.projectId) creation.config.load
  | _ => true

structure Accounted : Prop where
  active : ∀ key, s.activeInstances key = s.registeredAt key
  totals : s.resources.Balanced
  stopped : ∀ instanceId i, s.created[instanceId]? = some i → i.initialized = true →
    s.instances.get i.config.key ≠ some instanceId → i.status = .terminated

def Guarded : PoolRequest → Prop
  | .getOrCreateInstance tenantId projectId _ configOverride => OverrideFits tenantId projectId configOverride
  | .proceed task findings =>
    findings.defaultQuota.Nonneg ∧ s.countsExactly task = true ∧
      (∀ instanceId next, s.tasks[task]? = some (.waiting (.remove instanceId next)) → s.lock = none →
        s.Registered instanceId) ∧
      ∀ instanceId creation, s.tasks[task]? = some (.initializing instanceId creation) → findings.agentCreated = true →
        s.instances.get creation.config.key = none
  | _ => True

def NextOk (instanceId : Nat) : Next → Prop
  | .finish => True
  | .create tenantId projectId _ configOverride => OverrideFits tenantId projectId configOverride
  | .migrate config => config.quota.Nonneg
  | .removeAll others => (instanceId :: others).Nodup ∧ ∀ other ∈ others, s.Registered other

def PlaceOk (task : Nat) : Place → Prop
  | .waiting operation => operation.Valid
  | .stopping instanceId next => s.lock = some task ∧ s.Registered instanceId ∧ s.NextOk instanceId next
  | .releasing instanceId next =>
    s.lock = some task ∧ s.Registered instanceId ∧ s.NextOk instanceId next ∧
      ∀ i, s.created[instanceId]? = some i → i.status = .terminated
  | .allocating creation => creation.Valid
  | .acquiring creation => creation.Valid
  | .abandoning creation => creation.Valid
  | .initializing instanceId creation =>
    creation.Valid ∧ ∃ i, s.created[instanceId]? = some i ∧ creation.config.Alike i.config ∧ i.initialized = false ∧
      i.status = .initializing
  | .failing _ creation => creation.Valid
  | .finished => True

structure InstanceOk (instanceId : Nat) (i : AgentInstance) : Prop where
  quota : i.config.quota.Nonneg
  ready : i.initialized = true → i.status.wasReady = true
  stopped : i.initialized = true → s.instances.get i.config.key = some instanceId ∨ i.status = .terminated

def loadOf (key : String) (instanceId : Nat) : Load :=
  (s.created[instanceId]?).elim 0 (·.config.loadAt key)

def owned (key : String) : Load :=
  s.instances.total (s.loadOf key) + (s.tasks.map (·.held key)).sum

structure Inv : Prop where
  registered : ∀ key instanceId, s.instances.get key = some instanceId →
    ∃ i, s.created[instanceId]? = some i ∧ i.config.key = key ∧ i.initialized = true
  instances : ∀ instanceId i, s.created[instanceId]? = some i → s.InstanceOk instanceId i
  places : ∀ (task : Nat) place, s.tasks[task]? = some place → s.PlaceOk task place
  distinct : ∀ (task other : Nat) instanceId creation creation',
    s.tasks[task]? = some (.initializing instanceId creation) →
      s.tasks[other]? = some (.initializing instanceId creation') → task = other
  loads : ∀ key, s.resources.loadAt key = s.owned key
  balanced : s.resources.Balanced

end Model

section Alike

variable {config other : AgentInstanceConfig}

theorem key_of_alike (h : config.Alike other) : other.key = config.key := by
  unfold AgentInstanceConfig.key
  rw [h.tenantId, h.projectId, h.agentMode]

theorem allocationKey_of_alike (h : config.Alike other) : other.allocationKey = config.allocationKey := by
  unfold AgentInstanceConfig.allocationKey
  rw [h.tenantId, h.projectId]

theorem loadAt_of_alike (h : config.Alike other) (key : String) : other.loadAt key = config.loadAt key := by
  unfold AgentInstanceConfig.loadAt AgentInstanceConfig.load
  rw [allocationKey_of_alike h, h.quota]

theorem load_nonneg (h : config.quota.Nonneg) : 0 ≤ config.load :=
  ⟨zero_le_one, h.1, h.2⟩

theorem loadAt_nonneg (h : config.quota.Nonneg) (key : String) : 0 ≤ config.loadAt key := by
  unfold AgentInstanceConfig.loadAt
  split
  . exact load_nonneg h
  . exact le_refl _

end Alike

variable {s : AgentPoolManager} {task : Nat} {place : Place}

section Place

theorem owned_setPlace {old : Place} (hold : s.tasks[task]? = some old) (new : Place) (key : String)
    : (s.setPlace task new).owned key + old.held key = s.owned key + new.held key := by
  unfold owned setPlace
  rw [add_assoc, add_assoc, List.sum_map_set (Place.held key) hold new]
  rfl

theorem getElem?_setPlace {other : Nat} {old new : Place} (hold : s.tasks[task]? = some old)
    : (s.setPlace task new).tasks[other]? = if other = task then some new else s.tasks[other]? := by
  exact Lists.getElem?_set_of_getElem? hold other

theorem getElem?_setPlace_self {old new : Place} (hold : s.tasks[task]? = some old)
    : (s.setPlace task new).tasks[task]? = some new := by
  rw [getElem?_setPlace hold, if_pos rfl]

theorem placeOk_congr {s' : AgentPoolManager} (hcreated : s'.created = s.created)
    (hinstances : s'.instances = s.instances)
    (hlock : place.locked = true → s'.lock = s.lock) (h : s.PlaceOk task place)
    : s'.PlaceOk task place := by
  have hregistered : ∀ instanceId, s.Registered instanceId → s'.Registered instanceId := by
    intro instanceId hregistered
    unfold Registered
    rw [hcreated, hinstances]
    exact hregistered
  have hnext : ∀ instanceId next, s.NextOk instanceId next → s'.NextOk instanceId next := by
    intro instanceId next hnext
    cases next with
    | finish => trivial
    | create tenantId projectId agentMode configOverride => exact hnext
    | migrate config => exact hnext
    | removeAll others => exact ⟨hnext.1, fun other hother => hregistered other (hnext.2 other hother)⟩
  cases place with
  | stopping instanceId next => exact ⟨(hlock rfl).trans h.1, hregistered _ h.2.1, hnext _ _ h.2.2⟩
  | releasing instanceId next =>
    refine ⟨(hlock rfl).trans h.1, hregistered _ h.2.1, hnext _ _ h.2.2.1, ?_⟩
    rw [hcreated]
    exact h.2.2.2
  | initializing instanceId creation =>
    refine ⟨h.1, ?_⟩
    rw [hcreated]
    exact h.2
  | waiting operation => exact h
  | allocating creation => exact h
  | acquiring creation => exact h
  | abandoning creation => exact h
  | failing instanceId creation => exact h
  | finished => trivial

theorem inv_exchange (h : s.Inv) {old new : Place} {resources : ResourceManager} (hold : s.tasks[task]? = some old)
    (hok : s.PlaceOk task new)
    (hloads : ∀ key, resources.loadAt key + old.held key = s.resources.loadAt key + new.held key)
    (hbalanced : resources.Balanced)
    (hnew : ∀ instanceId creation, new = .initializing instanceId creation →
      ∀ (other : Nat) creation', s.tasks[other]? ≠ some (.initializing instanceId creation'))
    : (({ s with resources } : AgentPoolManager).setPlace task new).Inv where
  registered := h.registered
  instances := fun instanceId i hi => ⟨(h.instances instanceId i hi).quota, (h.instances instanceId i hi).ready,
    (h.instances instanceId i hi).stopped⟩
  places := by
    intro other place hplace
    rw [@getElem?_setPlace { s with resources } task other old new hold] at hplace
    split at hplace
    . next heq =>
      cases hplace
      rw [heq]
      exact placeOk_congr (s := s) rfl rfl (fun _ => rfl) hok
    . exact placeOk_congr (s := s) rfl rfl (fun _ => rfl) (h.places other place hplace)
  distinct := by
    intro first second instanceId creation creation' hfirst hsecond
    rw [@getElem?_setPlace { s with resources } task _ old new hold] at hfirst hsecond
    split at hfirst
    . next heq =>
      split at hsecond
      . next heq' => rw [heq, heq']
      . cases hfirst
        exact absurd hsecond (hnew instanceId creation rfl second creation')
    . split at hsecond
      . cases hsecond
        exact absurd hfirst (hnew instanceId creation' rfl first creation)
      . exact h.distinct first second instanceId creation creation' hfirst hsecond
  loads := by
    intro key
    have howned := @owned_setPlace { s with resources } task old hold new key
    have hsame : ({ s with resources } : AgentPoolManager).owned key = s.owned key := rfl
    rw [hsame, ← h.loads, ← hloads key] at howned
    exact (add_right_cancel howned).symm
  balanced := hbalanced

theorem inv_setPlace (h : s.Inv) {old new : Place} (hold : s.tasks[task]? = some old) (hok : s.PlaceOk task new)
    (hheld : ∀ key, new.held key = old.held key) (hnew : ∀ instanceId creation, new ≠ .initializing instanceId creation)
    : (s.setPlace task new).Inv := by
  apply @inv_exchange s task h old new s.resources hold hok _ h.balanced
  . intro instanceId creation heq
    exact absurd heq (hnew instanceId creation)
  . intro key
    rw [hheld]

end Place

section Lock

theorem lock_of_locked (h : s.PlaceOk task place) (hlocked : place.locked = true) : s.lock = some task := by
  cases place with
  | stopping instanceId next => exact h.1
  | releasing instanceId next => exact h.1
  | waiting operation => cases hlocked
  | allocating creation => cases hlocked
  | acquiring creation => cases hlocked
  | abandoning creation => cases hlocked
  | initializing instanceId creation => cases hlocked
  | failing instanceId creation => cases hlocked
  | finished => cases hlocked

theorem inv_lock (h : s.Inv) (lock : Option Nat)
    (hlock : ∀ (other : Nat) place, s.tasks[other]? = some place → place.locked = true → lock = s.lock)
    : ({ s with lock } : AgentPoolManager).Inv where
  registered := h.registered
  instances := fun instanceId i hi => ⟨(h.instances instanceId i hi).quota, (h.instances instanceId i hi).ready,
    (h.instances instanceId i hi).stopped⟩
  places := fun other place hplace =>
    placeOk_congr (s := s) rfl rfl (hlock other place hplace) (h.places other place hplace)
  distinct := h.distinct
  loads := h.loads
  balanced := h.balanced

theorem inv_unlock (h : s.Inv) (hplace : s.tasks[task]? = some place) (hlocked : place.locked = false)
    : (s.unlock task).Inv := by
  apply inv_lock h
  intro other held hheld heldLocked
  have hlock := lock_of_locked (h.places other held hheld) heldLocked
  rw [hlock, if_neg]
  intro heq
  cases heq
  rw [hplace] at hheld
  cases hheld
  rw [hlocked] at heldLocked
  cases heldLocked

theorem inv_take (h : s.Inv) (hlock : s.lock = none) : ({ s with lock := some task } : AgentPoolManager).Inv := by
  apply inv_lock h
  intro other held hheld heldLocked
  rw [lock_of_locked (h.places other held hheld) heldLocked] at hlock
  cases hlock

theorem inv_unlock_setPlace (h : s.Inv) {old new : Place} (hold : s.tasks[task]? = some old) (hok : s.PlaceOk task new)
    (hheld : ∀ key, new.held key = old.held key) (hlocked : new.locked = false)
    (hnew : ∀ instanceId creation, new ≠ .initializing instanceId creation)
    : ((s.unlock task).setPlace task new).Inv := by
  have hset := inv_setPlace h hold hok hheld hnew
  have hplace : (s.setPlace task new).tasks[task]? = some new := by
    rw [getElem?_setPlace hold, if_pos rfl]
  exact inv_unlock hset hplace hlocked

theorem inv_finish (h : s.Inv) {old : Place} (hold : s.tasks[task]? = some old) (hheld : ∀ key, old.held key = 0)
    : (s.finish task).Inv :=
  inv_unlock_setPlace h hold trivial (fun key => (hheld key).symm) rfl (fun _ _ heq => by cases heq)

theorem inv_spawn (h : s.Inv) {operation : Operation} (hvalid : operation.Valid)
    : (s.spawn (.waiting operation)).Inv where
  registered := h.registered
  instances := fun instanceId i hi => ⟨(h.instances instanceId i hi).quota, (h.instances instanceId i hi).ready,
    (h.instances instanceId i hi).stopped⟩
  places := by
    intro other place hplace
    unfold spawn at hplace
    rw [List.getElem?_append] at hplace
    split at hplace
    . exact h.places other place hplace
    . rw [List.getElem?_singleton] at hplace
      split at hplace
      . cases hplace
        exact hvalid
      . cases hplace
  distinct := by
    have hold : ∀ (other : Nat) instanceId creation,
        (s.spawn (.waiting operation)).tasks[other]? = some (.initializing instanceId creation) →
          s.tasks[other]? = some (.initializing instanceId creation) := by
      intro other instanceId creation hplace
      unfold spawn at hplace
      rw [List.getElem?_append] at hplace
      split at hplace
      . exact hplace
      . rw [List.getElem?_singleton] at hplace
        split at hplace
        . cases hplace
        . cases hplace
    intro first second instanceId creation creation' hfirst hsecond
    exact h.distinct first second _ _ _ (hold _ _ _ hfirst) (hold _ _ _ hsecond)
  loads := by
    intro key
    have howned : (s.spawn (.waiting operation)).owned key = s.owned key := by
      have hzero : Place.held key (.waiting operation) = 0 := rfl
      unfold owned spawn
      rw [List.map_append, List.sum_append, List.map_singleton, List.sum_singleton, hzero, add_zero]
      rfl
    rw [howned]
    exact h.loads key
  balanced := h.balanced

end Lock

section Instances

structure Kept (s : AgentPoolManager) (instanceId : Nat) (i j : AgentInstance) : Prop where
  config : i.config.Alike j.config
  initialized : j.initialized = i.initialized
  ready : i.initialized = true → i.status.wasReady = true → j.status.wasReady = true
  terminated : i.initialized = true → i.status = .terminated → j.status = .terminated
  initializing : i.status = .initializing → j.status = .initializing ∨
    ∀ (task : Nat) creation, s.tasks[task]? ≠ some (.initializing instanceId creation)

theorem getElem?_modify {instanceId other : Nat} {f : AgentInstance → AgentInstance}
    : (s.created.modify instanceId f)[other]?
        = if instanceId = other then (s.created[other]?).map f else s.created[other]? := by
  rw [List.getElem?_modify]
  split
  . rfl
  . simp

theorem alike_refl (config : AgentInstanceConfig) : config.Alike config :=
  ⟨rfl, rfl, rfl, rfl⟩

theorem alike_modify {instanceId other : Nat} {f : AgentInstance → AgentInstance} {i : AgentInstance}
    (hkept : ∀ i, s.created[instanceId]? = some i → i.config.Alike (f i).config) (hi : s.created[other]? = some i)
    : ∃ j, (s.created.modify instanceId f)[other]? = some j ∧ i.config.Alike j.config := by
  rw [getElem?_modify]
  split
  . next heq =>
    rw [hi]
    rw [← heq] at hi
    exact ⟨f i, rfl, hkept i hi⟩
  . exact ⟨i, hi, alike_refl i.config⟩

theorem total_loadOf_congr {created : List AgentInstance}
    (hregistered : ∀ key instanceId, s.instances.get key = some instanceId →
      ∃ i, s.created[instanceId]? = some i ∧ i.config.key = key ∧ i.initialized = true)
    (halike : ∀ (instanceId : Nat) (i : AgentInstance), s.created[instanceId]? = some i →
      ∃ j, created[instanceId]? = some j ∧ i.config.Alike j.config)
    (key : String)
    : s.instances.total (({ s with created } : AgentPoolManager).loadOf key) = s.instances.total (s.loadOf key) := by
  apply Dict.total_congr
  intro instanceId hmem
  rw [Dict.mem_values] at hmem
  rcases hmem with ⟨instanceKey, hget⟩
  rcases hregistered instanceKey instanceId hget with ⟨i, hi, _, _⟩
  rcases halike instanceId i hi with ⟨j, hj, hij⟩
  unfold loadOf
  rw [hi, hj]
  exact loadAt_of_alike hij key

theorem owned_created {created : List AgentInstance} (h : s.Inv)
    (halike : ∀ (instanceId : Nat) (i : AgentInstance), s.created[instanceId]? = some i →
      ∃ j, created[instanceId]? = some j ∧ i.config.Alike j.config)
    (key : String)
    : ({ s with created } : AgentPoolManager).owned key = s.owned key := by
  unfold owned
  rw [total_loadOf_congr h.registered halike]

theorem kept_of_modify {instanceId other : Nat} {f : AgentInstance → AgentInstance} {j : AgentInstance}
    (hkept : ∀ i, s.created[instanceId]? = some i → s.Kept instanceId i (f i))
    (hj : (s.created.modify instanceId f)[other]? = some j)
    : ∃ i, s.created[other]? = some i ∧ s.Kept other i j := by
  rw [getElem?_modify] at hj
  split at hj
  . next heq =>
    rw [Option.map_eq_some_iff] at hj
    rcases hj with ⟨i, hi, rfl⟩
    rw [← heq] at hi ⊢
    exact ⟨i, hi, hkept i hi⟩
  . exact ⟨j, hj, alike_refl j.config, rfl, fun _ => id, fun _ => id, Or.inl⟩

theorem registered_modify {instanceId other : Nat} {f : AgentInstance → AgentInstance}
    (hkept : ∀ i, s.created[instanceId]? = some i → s.Kept instanceId i (f i)) (h : s.Registered other)
    : ({ s with created := s.created.modify instanceId f } : AgentPoolManager).Registered other := by
  rcases h with ⟨i, hi, hget⟩
  rcases alike_modify (fun i hi => (hkept i hi).config) hi with ⟨j, hj, halike⟩
  refine ⟨j, hj, ?_⟩
  rw [key_of_alike halike]
  exact hget

theorem placeOk_modify {instanceId : Nat} {f : AgentInstance → AgentInstance} (h : s.Inv)
    (hkept : ∀ i, s.created[instanceId]? = some i → s.Kept instanceId i (f i)) (hplace : s.tasks[task]? = some place)
    : ({ s with created := s.created.modify instanceId f } : AgentPoolManager).PlaceOk task place := by
  have hok := h.places task place hplace
  have hnext : ∀ other next, s.NextOk other next →
      ({ s with created := s.created.modify instanceId f } : AgentPoolManager).NextOk other next := by
    intro other next hnext
    cases next with
    | finish => trivial
    | create tenantId projectId agentMode configOverride => exact hnext
    | migrate config => exact hnext
    | removeAll others => exact ⟨hnext.1, fun other hother => registered_modify hkept (hnext.2 other hother)⟩
  cases place with
  | stopping other next => exact ⟨hok.1, registered_modify hkept hok.2.1, hnext _ _ hok.2.2⟩
  | releasing other next =>
    refine ⟨hok.1, registered_modify hkept hok.2.1, hnext _ _ hok.2.2.1, ?_⟩
    intro j hj
    rcases kept_of_modify hkept hj with ⟨i, hi, hij⟩
    rcases hok.2.1 with ⟨i', hi', hget⟩
    rw [hi] at hi'
    cases hi'
    rcases h.registered _ _ hget with ⟨i', hi', _, hinitialized⟩
    rw [hi] at hi'
    cases hi'
    exact hij.terminated hinitialized (hok.2.2.2 i hi)
  | initializing other creation =>
    rcases hok.2 with ⟨i, hi, halike, hinitialized, hstatus⟩
    refine ⟨hok.1, ?_⟩
    rcases alike_modify (fun i hi => (hkept i hi).config) hi with ⟨j, hj, _⟩
    rcases kept_of_modify hkept hj with ⟨i', hi', hij⟩
    rw [hi] at hi'
    cases hi'
    refine ⟨j, hj, ?_, ?_, ?_⟩
    . exact ⟨hij.config.tenantId.trans halike.tenantId, hij.config.projectId.trans halike.projectId,
        hij.config.agentMode.trans halike.agentMode, hij.config.quota.trans halike.quota⟩
    . rw [hij.initialized]
      exact hinitialized
    . cases hij.initializing hstatus with
      | inl hsame => exact hsame
      | inr hnone => exact absurd hplace (hnone task creation)
  | waiting operation => exact hok
  | allocating creation => exact hok
  | acquiring creation => exact hok
  | abandoning creation => exact hok
  | failing other creation => exact hok
  | finished => trivial

theorem inv_modify (h : s.Inv) {instanceId : Nat} {f : AgentInstance → AgentInstance}
    (hkept : ∀ i, s.created[instanceId]? = some i → s.Kept instanceId i (f i))
    : ({ s with created := s.created.modify instanceId f } : AgentPoolManager).Inv where
  registered := by
    intro key other hget
    rcases h.registered key other hget with ⟨i, hi, hkey, hinitialized⟩
    rcases alike_modify (fun i hi => (hkept i hi).config) hi with ⟨j, hj, halike⟩
    rcases kept_of_modify hkept hj with ⟨i', hi', hij⟩
    rw [hi] at hi'
    cases hi'
    exact ⟨j, hj, (key_of_alike halike).trans hkey, hij.initialized.trans hinitialized⟩
  instances := by
    intro other j hj
    rcases kept_of_modify hkept hj with ⟨i, hi, hij⟩
    have hok := h.instances other i hi
    constructor
    . rw [hij.config.quota]
      exact hok.quota
    . intro hinitialized
      rw [hij.initialized] at hinitialized
      exact hij.ready hinitialized (hok.ready hinitialized)
    . intro hinitialized
      rw [hij.initialized] at hinitialized
      rw [key_of_alike hij.config]
      exact (hok.stopped hinitialized).imp_right (hij.terminated hinitialized)
  places := fun _ _ hplace => placeOk_modify h hkept hplace
  distinct := h.distinct
  loads := by
    intro key
    rw [owned_created h (fun _ _ hi => alike_modify (fun i hi => (hkept i hi).config) hi)]
    exact h.loads key
  balanced := h.balanced

end Instances

section Resources

theorem inv_resources (h : s.Inv) {resources : ResourceManager}
    (hloads : ∀ key, resources.loadAt key = s.resources.loadAt key) (hbalanced : resources.Balanced)
    : ({ s with resources } : AgentPoolManager).Inv where
  registered := h.registered
  instances := fun instanceId i hi => ⟨(h.instances instanceId i hi).quota, (h.instances instanceId i hi).ready,
    (h.instances instanceId i hi).stopped⟩
  places := fun other place hplace => placeOk_congr (s := s) rfl rfl (fun _ => rfl) (h.places other place hplace)
  distinct := h.distinct
  loads := fun key => (hloads key).trans (h.loads key)
  balanced := hbalanced

def IsShare (load : Load) : Prop :=
  0 ≤ load ∧ (load = 0 ∨ 1 ≤ load.1)

theorem isShare_zero : IsShare 0 :=
  ⟨le_refl _, Or.inl rfl⟩

theorem isShare_loadAt {config : AgentInstanceConfig} (h : config.quota.Nonneg) (key : String)
    : IsShare (config.loadAt key) := by
  refine ⟨loadAt_nonneg h key, ?_⟩
  unfold AgentInstanceConfig.loadAt
  split
  . exact Or.inr (le_refl _)
  . exact Or.inl rfl

theorem isShare_loadOf (h : s.Inv) (key : String) (instanceId : Nat) : IsShare (s.loadOf key instanceId) := by
  unfold loadOf
  cases hi : s.created[instanceId]? with
  | none => exact isShare_zero
  | some i => exact isShare_loadAt (h.instances instanceId i hi).quota key

theorem isShare_held (h : s.PlaceOk task place) (key : String) : IsShare (place.held key) := by
  cases place with
  | initializing instanceId creation => exact isShare_loadAt h.1.quota key
  | failing instanceId creation => exact isShare_loadAt h.quota key
  | waiting operation => exact isShare_zero
  | stopping instanceId next => exact isShare_zero
  | releasing instanceId next => exact isShare_zero
  | allocating creation => exact isShare_zero
  | acquiring creation => exact isShare_zero
  | abandoning creation => exact isShare_zero
  | finished => exact isShare_zero

def shares (s : AgentPoolManager) (key : String) : List Load :=
  s.instances.values.map (s.loadOf key) ++ s.tasks.map (·.held key)

theorem owned_eq_sum (s : AgentPoolManager) (key : String) : s.owned key = (s.shares key).sum := by
  unfold shares owned Dict.total
  rw [List.sum_append]

theorem isShare_of_mem (h : s.Inv) {key : String} : ∀ share ∈ s.shares key, IsShare share := by
  intro share hshare
  unfold shares at hshare
  rw [List.mem_append, List.mem_map, List.mem_map] at hshare
  cases hshare with
  | inl hregistered =>
    rcases hregistered with ⟨instanceId, _, rfl⟩
    exact isShare_loadOf h key instanceId
  | inr hheld =>
    rcases hheld with ⟨place, hplace, rfl⟩
    rcases List.getElem?_of_mem hplace with ⟨task, htask⟩
    exact isShare_held (h.places task place htask) key

theorem share_le_owned (h : s.Inv) {key : String} {share : Load} (hshare : share ∈ s.shares key)
    : share ≤ s.owned key := by
  rw [owned_eq_sum]
  apply List.single_le_sum _ _ hshare
  intro other hother
  exact (isShare_of_mem h other hother).1

theorem loadOf_le_owned (h : s.Inv) {instanceKey : String} {instanceId : Nat}
    (hget : s.instances.get instanceKey = some instanceId) (key : String)
    : s.loadOf key instanceId ≤ s.owned key := by
  apply share_le_owned h
  unfold shares
  rw [List.mem_append]
  exact Or.inl (List.mem_map_of_mem (Dict.mem_values.mpr ⟨instanceKey, hget⟩))

theorem held_le_owned (h : s.Inv) (hplace : s.tasks[task]? = some place) (key : String)
    : place.held key ≤ s.owned key := by
  apply share_le_owned h
  unfold shares
  rw [List.mem_append]
  exact Or.inr (List.mem_map_of_mem (List.mem_of_getElem? hplace))

theorem owned_nonneg (h : s.Inv) (key : String) : 0 ≤ s.owned key := by
  rw [owned_eq_sum]
  apply List.sum_nonneg
  intro share hshare
  exact (isShare_of_mem h share hshare).1

theorem owned_eq_zero (h : s.Inv) {key : String} (hnone : (s.owned key).1 ≤ 0) : s.owned key = 0 := by
  have hzero : ∀ share ∈ s.shares key, share = 0 := by
    intro share hshare
    cases (isShare_of_mem h share hshare).2 with
    | inl hzero => exact hzero
    | inr hone =>
      have hle : share.1 ≤ (s.owned key).1 := (share_le_owned h hshare).1
      omega
  rw [owned_eq_sum]
  exact List.sum_eq_zero hzero

theorem loadAt_le_totals (h : s.Inv) (key : String) : s.resources.loadAt key ≤ s.resources.totals := by
  have hnonneg : ∀ load ∈ s.resources.allocations.values.map (·.load), 0 ≤ load := by
    intro load hload
    rw [List.mem_map] at hload
    rcases hload with ⟨allocation, hmem, rfl⟩
    rw [Dict.mem_values] at hmem
    rcases hmem with ⟨other, hget⟩
    rw [← ResourceManager.loadAt_of_get hget, h.loads]
    exact owned_nonneg h other
  rw [h.balanced.sums]
  cases hget : s.resources.allocations.get key with
  | none =>
    rw [ResourceManager.loadAt_of_notMem hget]
    exact List.sum_nonneg hnonneg
  | some allocation =>
    rw [ResourceManager.loadAt_of_get hget]
    exact List.single_le_sum hnonneg _ (List.mem_map_of_mem (Dict.mem_values.mpr ⟨key, hget⟩))

theorem release_inv (h : s.Inv) {tenantId projectId : String}
    (hexact : s.resources.releasesExactly (allocationKey tenantId projectId) = true)
    : ({ s with resources := (s.resources.release tenantId projectId).1 } : AgentPoolManager).Inv := by
  have hempty : ∀ key, (s.resources.loadAt key).1 ≤ 0 → s.resources.loadAt key = 0 := by
    intro key hnone
    rw [h.loads] at hnone ⊢
    exact owned_eq_zero h hnone
  have hspec := ResourceManager.release_spec hexact hempty
  exact inv_resources h hspec.1 (hspec.2 h.balanced)

theorem releaseInstance_of_share (h : s.Inv) {config : AgentInstanceConfig} (hquota : config.quota.Nonneg)
    (hexact : s.resources.subtractsExactly config.allocationKey config.load = true)
    (hheld : config.load ≤ s.owned config.allocationKey)
    : (∀ key, (s.resources.releaseInstance config.tenantId config.projectId config.quota.memoryRequestMb
            config.quota.cpuRequestCores).1.loadAt key + config.loadAt key
          = s.owned key) ∧
        (s.resources.releaseInstance config.tenantId config.projectId config.quota.memoryRequestMb
          config.quota.cpuRequestCores).1.Balanced := by
  rw [← h.loads] at hheld
  have hspec := ResourceManager.releaseInstance_spec hexact hheld (hheld.trans (loadAt_le_totals h _))
    (load_nonneg hquota)
  exact ⟨fun key => (hspec.1 key).trans (h.loads key), hspec.2 h.balanced⟩

end Resources

end AgentPoolManager

end Pool
end Agent
end MemStack
