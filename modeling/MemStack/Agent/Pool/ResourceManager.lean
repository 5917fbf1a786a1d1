import MemStack.Agent.Pool.Instance
import MemStack.Util.DictCount

/-!
This module contains the accounting of the resources of the pool (`pool/resource/manager.py`). Memory and cores are
floats: the numbers that they stand for, whose sums and differences are rounded.
-/

namespace MemStack
namespace Agent
namespace Pool

structure PoolConfig where
  maxTotalInstances : Int
  maxTotalMemoryMb : Rat
  maxTotalCpuCores : Rat

structure ProjectResourceAllocation where
  projectId : String
  tenantId : String
  tier : ProjectTier
  quota : ResourceQuota
  memoryUsedMb : Rat := 0
  cpuUsedCores : Rat := 0
  activeInstances : Int := 0
  deriving DecidableEq

namespace ProjectResourceAllocation

variable (rounded : Rat → Rat)

def canAllocateInstance (allocation : ProjectResourceAllocation) : Bool :=
  allocation.activeInstances < allocation.quota.maxInstances

def acquired (allocation : ProjectResourceAllocation) (memoryMb cpuCores : Rat) : ProjectResourceAllocation :=
  { allocation with
    activeInstances := allocation.activeInstances + 1
    memoryUsedMb := rounded (allocation.memoryUsedMb + memoryMb)
    cpuUsedCores := rounded (allocation.cpuUsedCores + cpuCores) }

def released (allocation : ProjectResourceAllocation) (memoryMb cpuCores : Rat) : ProjectResourceAllocation :=
  { allocation with
    activeInstances := max 0 (allocation.activeInstances - 1)
    memoryUsedMb := max 0 (rounded (allocation.memoryUsedMb - memoryMb))
    cpuUsedCores := max 0 (rounded (allocation.cpuUsedCores - cpuCores)) }

end ProjectResourceAllocation

inductive QuotaExceededError where
  | projectInstances
  | totalInstances
  | totalMemory
  | totalCpu
  deriving DecidableEq, Repr

structure ResourceManager where
  config : PoolConfig
  -- The float that the machine takes for a sum or a difference.
  rounded : Rat → Rat
  allocations : Dict String ProjectResourceAllocation
  totalMemoryUsedMb : Rat
  totalCpuUsedCores : Rat
  totalInstances : Int

def allocationKey (tenantId projectId : String) : String :=
  tenantId ++ ":" ++ projectId

namespace ResourceManager

variable (manager : ResourceManager)

def ofConfig (config : PoolConfig) (rounded : Rat → Rat) : ResourceManager where
  config := config
  rounded := rounded
  allocations := .empty
  totalMemoryUsedMb := 0
  totalCpuUsedCores := 0
  totalInstances := 0

def allocate (config : AgentInstanceConfig) : Except QuotaExceededError ResourceManager :=
  let key := allocationKey config.tenantId config.projectId
  match manager.allocations.get key with
  | some allocation => if allocation.canAllocateInstance then .ok manager else .error .projectInstances
  | none =>
    if manager.totalInstances ≥ manager.config.maxTotalInstances then .error .totalInstances
    else if manager.rounded (manager.totalMemoryUsedMb + config.quota.memoryRequestMb)
        > manager.config.maxTotalMemoryMb then
      .error .totalMemory
    else if manager.rounded (manager.totalCpuUsedCores + config.quota.cpuRequestCores)
        > manager.config.maxTotalCpuCores then
      .error .totalCpu
    else
      let allocation :=
        { projectId := config.projectId, tenantId := config.tenantId, tier := config.tier, quota := config.quota }
      .ok { manager with allocations := manager.allocations.set key allocation }

def release (tenantId projectId : String) : ResourceManager × Bool :=
  let key := allocationKey tenantId projectId
  match manager.allocations.get key with
  | none => (manager, false)
  | some allocation =>
    if allocation.activeInstances > 0 then (manager, false)
    else
      ({ manager with
          totalMemoryUsedMb := manager.rounded (manager.totalMemoryUsedMb - allocation.memoryUsedMb)
          totalCpuUsedCores := manager.rounded (manager.totalCpuUsedCores - allocation.cpuUsedCores)
          allocations := manager.allocations.erase key },
        true)

def acquireInstance (tenantId projectId : String) (memoryMb cpuCores : Rat) : ResourceManager × Bool :=
  let key := allocationKey tenantId projectId
  match manager.allocations.get key with
  | none => (manager, false)
  | some allocation =>
    if !allocation.canAllocateInstance then (manager, false)
    else if manager.totalInstances ≥ manager.config.maxTotalInstances then (manager, false)
    else if manager.rounded (manager.totalMemoryUsedMb + memoryMb) > manager.config.maxTotalMemoryMb then
      (manager, false)
    else if manager.rounded (manager.totalCpuUsedCores + cpuCores) > manager.config.maxTotalCpuCores then
      (manager, false)
    else
      ({ manager with
          allocations := manager.allocations.set key (allocation.acquired manager.rounded memoryMb cpuCores)
          totalInstances := manager.totalInstances + 1
          totalMemoryUsedMb := manager.rounded (manager.totalMemoryUsedMb + memoryMb)
          totalCpuUsedCores := manager.rounded (manager.totalCpuUsedCores + cpuCores) },
        true)

def releaseInstance (tenantId projectId : String) (memoryMb cpuCores : Rat) : ResourceManager × Bool :=
  let key := allocationKey tenantId projectId
  match manager.allocations.get key with
  | none => (manager, false)
  | some allocation =>
    ({ manager with
        allocations := manager.allocations.set key (allocation.released manager.rounded memoryMb cpuCores)
        totalInstances := max 0 (manager.totalInstances - 1)
        totalMemoryUsedMb := max 0 (manager.rounded (manager.totalMemoryUsedMb - memoryMb))
        totalCpuUsedCores := max 0 (manager.rounded (manager.totalCpuUsedCores - cpuCores)) },
      true)

end ResourceManager

abbrev Load := Int × Rat × Rat

def Load.ofInstance (memoryMb cpuCores : Rat) : Load :=
  (1, memoryMb, cpuCores)

theorem Load.clamped_sub_add {used : Load} {memoryMb cpuCores : Rat} (h : Load.ofInstance memoryMb cpuCores ≤ used)
    : ((max 0 (used.1 - 1), max 0 (used.2.1 - memoryMb), max 0 (used.2.2 - cpuCores)) : Load)
        + Load.ofInstance memoryMb cpuCores = used := by
  have hinstances : (1 : Int) ≤ used.1 := h.1
  have hmemory : memoryMb ≤ used.2.1 := h.2.1
  have hcpu : cpuCores ≤ used.2.2 := h.2.2
  rw [max_eq_right (sub_nonneg.mpr hinstances), max_eq_right (sub_nonneg.mpr hmemory),
    max_eq_right (sub_nonneg.mpr hcpu)]
  unfold ofInstance
  simp only [Prod.mk_add_mk, sub_add_cancel]

namespace Load

variable (rounded : Rat → Rat) (used amounts : Load)

def exactSum : Bool :=
  rounded (used.2.1 + amounts.2.1) = used.2.1 + amounts.2.1 && rounded (used.2.2 + amounts.2.2) = used.2.2 + amounts.2.2

def exactDifference : Bool :=
  rounded (used.2.1 - amounts.2.1) = used.2.1 - amounts.2.1 && rounded (used.2.2 - amounts.2.2) = used.2.2 - amounts.2.2

end Load

def ProjectResourceAllocation.load (allocation : ProjectResourceAllocation) : Load :=
  (allocation.activeInstances, allocation.memoryUsedMb, allocation.cpuUsedCores)

namespace ResourceManager

section Model

variable (manager : ResourceManager)

def loadAt (key : String) : Load :=
  (manager.allocations.get key).elim 0 (·.load)

def totals : Load :=
  (manager.totalInstances, manager.totalMemoryUsedMb, manager.totalCpuUsedCores)

def maxima : Load :=
  (manager.config.maxTotalInstances, manager.config.maxTotalMemoryMb, manager.config.maxTotalCpuCores)

def addsExactly (key : String) (amounts : Load) : Bool :=
  manager.totals.exactSum manager.rounded amounts && (manager.loadAt key).exactSum manager.rounded amounts

def subtractsExactly (key : String) (amounts : Load) : Bool :=
  manager.totals.exactDifference manager.rounded amounts &&
    (manager.loadAt key).exactDifference manager.rounded amounts

def releasesExactly (key : String) : Bool :=
  (manager.loadAt key).1 > 0 || manager.totals.exactDifference manager.rounded (manager.loadAt key)

structure Balanced : Prop where
  sums : manager.totals = manager.allocations.total (·.load)
  bounded : manager.totals ≤ manager.maxima

end Model

variable {manager result : ResourceManager} {config : AgentInstanceConfig} {tenantId projectId : String}
  {memoryMb cpuCores : Rat}

theorem loadAt_of_get {key : String} {allocation : ProjectResourceAllocation}
    (h : manager.allocations.get key = some allocation)
    : manager.loadAt key = allocation.load := by
  unfold loadAt
  rw [h]
  rfl

theorem loadAt_of_notMem {key : String} (h : manager.allocations.get key = none) : manager.loadAt key = 0 := by
  unfold loadAt
  rw [h]
  rfl

theorem loadAt_set (key other : String) (allocation : ProjectResourceAllocation)
    (h : result.allocations = manager.allocations.set key allocation)
    : result.loadAt other = if other = key then allocation.load else manager.loadAt other := by
  unfold loadAt
  rw [h, Dict.get_set]
  split
  . rfl
  . rfl

theorem ofConfig_balanced {config : PoolConfig} (rounded : Rat → Rat) (hinstances : 0 ≤ config.maxTotalInstances)
    (hmemory : 0 ≤ config.maxTotalMemoryMb) (hcpu : 0 ≤ config.maxTotalCpuCores)
    : (ofConfig config rounded).Balanced where
  sums := rfl
  bounded := ⟨hinstances, hmemory, hcpu⟩

theorem allocate_spec (h : manager.allocate config = .ok result)
    : (∀ key, result.loadAt key = manager.loadAt key) ∧ (manager.Balanced → result.Balanced) := by
  unfold allocate at h
  dsimp only at h
  cases hget : manager.allocations.get (allocationKey config.tenantId config.projectId) with
  | some allocation =>
    rw [hget] at h
    dsimp only at h
    split at h
    . cases h
      exact ⟨fun _ => rfl, id⟩
    . cases h
  | none =>
    rw [hget] at h
    dsimp only at h
    split_ifs at h
    cases h
    constructor
    . intro key
      rw [loadAt_set _ key _ rfl]
      split
      . next hkey =>
        rw [hkey, loadAt_of_notMem hget]
        rfl
      . rfl
    . intro hbalanced
      refine ⟨?_, hbalanced.bounded⟩
      rw [Dict.total_set_of_notMem _ hget]
      exact hbalanced.sums.trans (add_zero _).symm

theorem acquireInstance_failed (h : manager.acquireInstance tenantId projectId memoryMb cpuCores = (result, false))
    : result = manager := by
  unfold acquireInstance at h
  dsimp only at h
  split at h
  . cases h
    rfl
  . split_ifs at h
    . cases h
      rfl
    . cases h
      rfl
    . cases h
      rfl
    . cases h
      rfl
    . cases h

theorem acquired_load {rounded : Rat → Rat} {allocation : ProjectResourceAllocation}
    (h : allocation.load.exactSum rounded (.ofInstance memoryMb cpuCores) = true)
    : (allocation.acquired rounded memoryMb cpuCores).load = allocation.load + Load.ofInstance memoryMb cpuCores := by
  obtain ⟨hmemory, hcpu⟩ := (Bool.and_eq_true _ _).mp h
  have hmemory : rounded (allocation.memoryUsedMb + memoryMb) = allocation.memoryUsedMb + memoryMb :=
    of_decide_eq_true hmemory
  have hcpu : rounded (allocation.cpuUsedCores + cpuCores) = allocation.cpuUsedCores + cpuCores :=
    of_decide_eq_true hcpu
  unfold ProjectResourceAllocation.acquired ProjectResourceAllocation.load
  rw [hmemory, hcpu]
  rfl

theorem released_load {rounded : Rat → Rat} {allocation : ProjectResourceAllocation}
    (hexact : allocation.load.exactDifference rounded (.ofInstance memoryMb cpuCores) = true)
    (h : Load.ofInstance memoryMb cpuCores ≤ allocation.load)
    : (allocation.released rounded memoryMb cpuCores).load + Load.ofInstance memoryMb cpuCores = allocation.load := by
  obtain ⟨hmemory, hcpu⟩ := (Bool.and_eq_true _ _).mp hexact
  have hmemory : rounded (allocation.memoryUsedMb - memoryMb) = allocation.memoryUsedMb - memoryMb :=
    of_decide_eq_true hmemory
  have hcpu : rounded (allocation.cpuUsedCores - cpuCores) = allocation.cpuUsedCores - cpuCores :=
    of_decide_eq_true hcpu
  unfold ProjectResourceAllocation.released
  rw [hmemory, hcpu]
  exact Load.clamped_sub_add h

theorem acquireInstance_spec (h : manager.acquireInstance tenantId projectId memoryMb cpuCores = (result, true))
    (hexact : manager.addsExactly (allocationKey tenantId projectId) (.ofInstance memoryMb cpuCores) = true)
    : (∀ key, result.loadAt key = manager.loadAt key
          + if key = allocationKey tenantId projectId then Load.ofInstance memoryMb cpuCores else 0) ∧
        (manager.Balanced → result.Balanced) := by
  obtain ⟨hexactTotals, hexactLoad⟩ := (Bool.and_eq_true _ _).mp hexact
  obtain ⟨hexactMemory, hexactCpu⟩ := (Bool.and_eq_true _ _).mp hexactTotals
  have hexactMemory : manager.rounded (manager.totalMemoryUsedMb + memoryMb) = manager.totalMemoryUsedMb + memoryMb :=
    of_decide_eq_true hexactMemory
  have hexactCpu : manager.rounded (manager.totalCpuUsedCores + cpuCores) = manager.totalCpuUsedCores + cpuCores :=
    of_decide_eq_true hexactCpu
  unfold acquireInstance at h
  dsimp only at h
  rw [hexactMemory, hexactCpu] at h
  split at h
  . cases h
  . next allocation hget =>
    rw [loadAt_of_get hget] at hexactLoad
    have hacquired := acquired_load hexactLoad
    split_ifs at h with hproject hinstances hmemory hcpu
    . cases h
    . cases h
    . cases h
    . cases h
    . cases h
      constructor
      . intro key
        rw [loadAt_set _ key _ rfl]
        split
        . next hkey =>
          rw [hkey, loadAt_of_get hget]
          exact hacquired
        . rw [add_zero]
      . intro hbalanced
        constructor
        . have hset := Dict.total_set_of_get ProjectResourceAllocation.load hget
            (allocation.acquired manager.rounded memoryMb cpuCores)
          rw [hacquired, ← hbalanced.sums, add_left_comm, add_comm] at hset
          exact (add_left_cancel hset).symm
        . push Not at hinstances
          exact ⟨hinstances, not_lt.mp hmemory, not_lt.mp hcpu⟩

theorem releaseInstance_spec
    (hexact : manager.subtractsExactly (allocationKey tenantId projectId) (.ofInstance memoryMb cpuCores) = true)
    (hheld : Load.ofInstance memoryMb cpuCores ≤ manager.loadAt (allocationKey tenantId projectId))
    (htotals : Load.ofInstance memoryMb cpuCores ≤ manager.totals)
    (hnonneg : 0 ≤ Load.ofInstance memoryMb cpuCores)
    : (∀ key, (manager.releaseInstance tenantId projectId memoryMb cpuCores).1.loadAt key
            + (if key = allocationKey tenantId projectId then Load.ofInstance memoryMb cpuCores else 0)
          = manager.loadAt key) ∧
        (manager.Balanced → (manager.releaseInstance tenantId projectId memoryMb cpuCores).1.Balanced) := by
  obtain ⟨hexactTotals, hexactLoad⟩ := (Bool.and_eq_true _ _).mp hexact
  obtain ⟨hexactMemory, hexactCpu⟩ := (Bool.and_eq_true _ _).mp hexactTotals
  have hexactMemory : manager.rounded (manager.totalMemoryUsedMb - memoryMb) = manager.totalMemoryUsedMb - memoryMb :=
    of_decide_eq_true hexactMemory
  have hexactCpu : manager.rounded (manager.totalCpuUsedCores - cpuCores) = manager.totalCpuUsedCores - cpuCores :=
    of_decide_eq_true hexactCpu
  unfold releaseInstance
  dsimp only
  rw [hexactMemory, hexactCpu]
  cases hget : manager.allocations.get (allocationKey tenantId projectId) with
  | none =>
    rw [loadAt_of_notMem hget] at hheld
    have hone : (1 : Int) ≤ 0 := hheld.1
    omega
  | some allocation =>
    dsimp only
    rw [loadAt_of_get hget] at hheld hexactLoad
    have hload := released_load hexactLoad hheld
    constructor
    . intro key
      rw [loadAt_set _ key _ rfl]
      split
      . next hkey =>
        rw [hkey, loadAt_of_get hget]
        exact hload
      . rw [add_zero]
    . intro hbalanced
      have hafter : ((max 0 (manager.totalInstances - 1), max 0 (manager.totalMemoryUsedMb - memoryMb),
          max 0 (manager.totalCpuUsedCores - cpuCores)) : Load) + Load.ofInstance memoryMb cpuCores = manager.totals :=
        Load.clamped_sub_add htotals
      constructor
      . have hset := Dict.total_set_of_get ProjectResourceAllocation.load hget
          (allocation.released manager.rounded memoryMb cpuCores)
        rw [← hbalanced.sums, ← hload, ← hafter, add_right_comm, ← add_assoc] at hset
        have hsums := add_right_cancel (add_right_cancel hset)
        exact hsums.symm
      . refine le_trans ?_ hbalanced.bounded
        rw [← hafter]
        exact le_add_of_nonneg_right hnonneg

theorem release_spec (hexact : manager.releasesExactly (allocationKey tenantId projectId) = true)
    (hempty : ∀ key, (manager.loadAt key).1 ≤ 0 → manager.loadAt key = 0)
    : (∀ key, (manager.release tenantId projectId).1.loadAt key = manager.loadAt key) ∧
        (manager.Balanced → (manager.release tenantId projectId).1.Balanced) := by
  unfold release
  dsimp only
  cases hget : manager.allocations.get (allocationKey tenantId projectId) with
  | none => exact ⟨fun _ => rfl, id⟩
  | some allocation =>
    dsimp only
    split_ifs with hactive
    . exact ⟨fun _ => rfl, id⟩
    . have hzero := hempty (allocationKey tenantId projectId)
      rw [loadAt_of_get hget] at hzero
      have hload : allocation.load = 0 := hzero (not_lt.mp hactive)
      have hmemory : allocation.memoryUsedMb = 0 := congrArg (·.2.1) hload
      have hcpu : allocation.cpuUsedCores = 0 := congrArg (·.2.2) hload
      have hnone : decide (allocation.load.1 > 0) = false := decide_eq_false hactive
      unfold releasesExactly at hexact
      rw [loadAt_of_get hget, hnone, Bool.false_or] at hexact
      obtain ⟨hexactMemory, hexactCpu⟩ := (Bool.and_eq_true _ _).mp hexact
      have hexactMemory : manager.rounded (manager.totalMemoryUsedMb - allocation.memoryUsedMb)
          = manager.totalMemoryUsedMb - allocation.memoryUsedMb := of_decide_eq_true hexactMemory
      have hexactCpu : manager.rounded (manager.totalCpuUsedCores - allocation.cpuUsedCores)
          = manager.totalCpuUsedCores - allocation.cpuUsedCores := of_decide_eq_true hexactCpu
      rw [hexactMemory, hexactCpu]
      constructor
      . intro key
        unfold loadAt
        dsimp only
        rw [Dict.get_erase]
        split
        . next hkey =>
          rw [hkey, hget]
          exact hload.symm
        . rfl
      . intro hbalanced
        have hsame : ({ manager with
            totalMemoryUsedMb := manager.totalMemoryUsedMb - allocation.memoryUsedMb
            totalCpuUsedCores := manager.totalCpuUsedCores - allocation.cpuUsedCores
            allocations := manager.allocations.erase (allocationKey tenantId projectId) }
              : ResourceManager).totals = manager.totals := by
          unfold totals
          dsimp only
          rw [hmemory, hcpu, sub_zero, sub_zero]
        constructor
        . have herase := Dict.total_erase_of_get ProjectResourceAllocation.load hget
          rw [hload, add_zero] at herase
          rw [hsame, hbalanced.sums]
          exact herase.symm
        . rw [hsame]
          exact hbalanced.bounded

end ResourceManager

end Pool
end Agent
end MemStack
