import MemStack.Agent.Pool.ManagerAccounted

/-!
This module contains that every run of the agent pool keeps its accounts, as long as a recovery that gets the lock
finds its instance registered and an instance that was created finds its key free.
-/

namespace MemStack
namespace Agent
namespace Pool
namespace AgentPoolManager

variable {s : AgentPoolManager} {task : Nat} {findings : Findings}

section Creation

variable {creation : Creation}

theorem allocate_inv (h : s.Inv) (hplace : s.tasks[task]? = some (.allocating creation))
    : (s.allocate task creation).Inv := by
  unfold allocate
  cases hallocate : s.resources.allocate creation.config with
  | error e => exact inv_finish h hplace (fun _ => rfl)
  | ok resources =>
    have hspec := ResourceManager.allocate_spec hallocate
    have hvalid : creation.Valid := h.places task _ hplace
    have hresources := inv_resources h hspec.1 (hspec.2 h.balanced)
    exact inv_setPlace hresources hplace hvalid (fun _ => rfl) (fun _ _ heq => by cases heq)

theorem getElem?_append_of_getElem? {created : List AgentInstance} {instanceId : Nat} {i : AgentInstance}
    (h : created[instanceId]? = some i) (last : AgentInstance)
    : (created ++ [last])[instanceId]? = some i := by
  rw [List.getElem?_append_left (List.getElem?_eq_some_iff.mp h).1]
  exact h

theorem registered_append {instanceId : Nat} (last : AgentInstance) (h : s.Registered instanceId)
    : ({ s with created := s.created ++ [last] } : AgentPoolManager).Registered instanceId := by
  rcases h with ⟨i, hi, hget⟩
  exact ⟨i, getElem?_append_of_getElem? hi last, hget⟩

theorem placeOk_append {place : Place} (last : AgentInstance) (h : s.PlaceOk task place)
    : ({ s with created := s.created ++ [last] } : AgentPoolManager).PlaceOk task place := by
  have hnext : ∀ instanceId next, s.NextOk instanceId next →
      ({ s with created := s.created ++ [last] } : AgentPoolManager).NextOk instanceId next := by
    intro instanceId next hnext
    cases next with
    | finish => trivial
    | create tenantId projectId agentMode configOverride => exact hnext
    | migrate config => exact hnext
    | removeAll others => exact ⟨hnext.1, fun other hother => registered_append last (hnext.2 other hother)⟩
  cases place with
  | stopping instanceId next => exact ⟨h.1, registered_append last h.2.1, hnext _ _ h.2.2⟩
  | releasing instanceId next =>
    refine ⟨h.1, registered_append last h.2.1, hnext _ _ h.2.2.1, ?_⟩
    intro j hj
    rcases h.2.1 with ⟨i, hi, _⟩
    rw [getElem?_append_of_getElem? hi last] at hj
    rw [← Option.some.inj hj]
    exact h.2.2.2 i hi
  | initializing instanceId creation =>
    rcases h.2 with ⟨i, hi, hrest⟩
    exact ⟨h.1, i, getElem?_append_of_getElem? hi last, hrest⟩
  | waiting operation => exact h
  | allocating creation => exact h
  | acquiring creation => exact h
  | abandoning creation => exact h
  | failing instanceId creation => exact h
  | finished => trivial

theorem inv_append (h : s.Inv) {last : AgentInstance} (hquota : last.config.quota.Nonneg)
    (hinitialized : last.initialized = false)
    : ({ s with created := s.created ++ [last] } : AgentPoolManager).Inv where
  registered := by
    intro key instanceId hget
    rcases h.registered key instanceId hget with ⟨i, hi, hrest⟩
    exact ⟨i, getElem?_append_of_getElem? hi last, hrest⟩
  instances := by
    intro instanceId i hi
    dsimp only at hi
    rw [List.getElem?_append] at hi
    split at hi
    . have hok := h.instances instanceId i hi
      exact ⟨hok.quota, hok.ready, hok.stopped⟩
    . rw [List.getElem?_singleton] at hi
      split at hi
      . cases hi
        refine ⟨hquota, ?_, ?_⟩
        . intro htrue
          rw [hinitialized] at htrue
          cases htrue
        . intro htrue
          rw [hinitialized] at htrue
          cases htrue
      . cases hi
  places := fun task place hplace => placeOk_append last (h.places task place hplace)
  distinct := h.distinct
  loads := by
    intro key
    rw [owned_created h (fun _ i hi => ⟨i, getElem?_append_of_getElem? hi last, alike_refl i.config⟩)]
    exact h.loads key
  balanced := h.balanced

theorem acquire_inv (h : s.Inv) (hplace : s.tasks[task]? = some (.acquiring creation))
    (hexact : s.countsExactly task = true)
    : (s.acquire task creation).Inv := by
  have hvalid : creation.Valid := h.places task _ hplace
  unfold countsExactly at hexact
  rw [hplace] at hexact
  unfold acquire
  dsimp only at hexact ⊢
  cases hacquire : s.resources.acquireInstance creation.tenantId creation.projectId
      creation.config.quota.memoryRequestMb creation.config.quota.cpuRequestCores with
  | mk resources acquired =>
    cases acquired with
    | false =>
      cases ResourceManager.acquireInstance_failed hacquire
      exact inv_setPlace h hplace hvalid (fun _ => rfl) (fun _ _ heq => by cases heq)
    | true =>
      rw [hacquire] at hexact
      have hspec := ResourceManager.acquireInstance_spec hacquire hexact
      dsimp only
      let i : AgentInstance := { config := creation.config, status := AgentInstanceStatus.created.initializeInstance }
      have happend : ({ s with created := s.created ++ [i] } : AgentPoolManager).Inv :=
        inv_append h hvalid.quota rfl
      apply inv_exchange happend hplace
      . refine ⟨hvalid, i, ?_, alike_refl _, rfl, rfl⟩
        simp
      . intro key
        have hload : (if key = allocationKey creation.tenantId creation.projectId then
            Load.ofInstance creation.config.quota.memoryRequestMb creation.config.quota.cpuRequestCores else 0)
              = creation.config.loadAt key := by
          unfold AgentInstanceConfig.loadAt AgentInstanceConfig.allocationKey
          rw [hvalid.tenantId, hvalid.projectId]
          rfl
        rw [hspec.1, hload]
        exact add_zero _
      . exact hspec.2 h.balanced
      . intro instanceId creation' heq other creation'' hother
        cases heq
        rcases (h.places other _ hother).2 with ⟨j, hj, _⟩
        simp at hj

theorem abandon_inv (h : s.Inv) (hplace : s.tasks[task]? = some (.abandoning creation))
    (hexact : s.countsExactly task = true)
    : (s.abandon task creation).Inv := by
  unfold countsExactly at hexact
  rw [hplace] at hexact
  exact inv_finish (release_inv h hexact) hplace (fun _ => rfl)

theorem giveBack_inv (h : s.Inv) {instanceId : Nat} (hplace : s.tasks[task]? = some (.failing instanceId creation))
    (hexact : s.countsExactly task = true)
    : (s.giveBack task creation).Inv := by
  have hvalid : creation.Valid := h.places task _ hplace
  have hshare := held_le_owned h hplace creation.config.allocationKey
  have hload : (Place.failing instanceId creation).held creation.config.allocationKey = creation.config.load :=
    if_pos rfl
  rw [hload] at hshare
  unfold countsExactly at hexact
  rw [hplace] at hexact
  unfold giveBack
  dsimp only at hexact ⊢
  rw [← hvalid.tenantId, ← hvalid.projectId] at hexact ⊢
  have hrelease := releaseInstance_of_share h hvalid.quota hexact hshare
  have hexchange := @inv_exchange s task h _ .finished _ hplace trivial (by
    intro key
    rw [h.loads]
    exact (hrelease.1 key).trans (add_zero _).symm) hrelease.2 (fun _ _ heq => by cases heq)
  exact inv_unlock hexchange (getElem?_setPlace_self hplace) rfl

def completed (i : AgentInstance) : AgentInstance :=
  { i with status := i.status.tryTransition .initializationComplete, initialized := true }

def afterRegister (s : AgentPoolManager) (task instanceId : Nat) (creation : Creation) : AgentPoolManager :=
  { s with
    created := s.created.modify instanceId completed
    instances := s.instances.set creation.config.key instanceId }.setPlace task .finished

section Register

variable {instanceId : Nat}

theorem not_registered (h : s.Inv) (hplace : s.tasks[task]? = some (.initializing instanceId creation)) (key : String)
    : s.instances.get key ≠ some instanceId := by
  intro hget
  rcases h.registered key instanceId hget with ⟨i, hi, _, htrue⟩
  rcases (h.places task _ hplace).2 with ⟨j, hj, _, hfalse, _⟩
  rw [hi] at hj
  cases hj
  rw [htrue] at hfalse
  cases hfalse

theorem created_afterRegister_of_ne {other : Nat} (hne : instanceId ≠ other)
    : (s.afterRegister task instanceId creation).created[other]? = s.created[other]? := by
  have hmodify := @getElem?_modify s instanceId other completed
  rw [if_neg hne] at hmodify
  exact hmodify

theorem created_afterRegister_self {i : AgentInstance} (hi : s.created[instanceId]? = some i)
    : (s.afterRegister task instanceId creation).created[instanceId]? = some (completed i) := by
  have hmodify := @getElem?_modify s instanceId instanceId completed
  rw [if_pos rfl, hi] at hmodify
  exact hmodify

theorem get_afterRegister (key : String)
    : (s.afterRegister task instanceId creation).instances.get key
        = if key = creation.config.key then some instanceId else s.instances.get key :=
  Dict.get_set _ _ _ _

theorem registered_afterRegister (h : s.Inv) (hplace : s.tasks[task]? = some (.initializing instanceId creation))
    (hfree : s.instances.get creation.config.key = none) {other : Nat} (hother : s.Registered other)
    : (s.afterRegister task instanceId creation).Registered other := by
  rcases hother with ⟨i, hi, hget⟩
  have hne : instanceId ≠ other := by
    rintro rfl
    exact not_registered h hplace _ hget
  refine ⟨i, ?_, ?_⟩
  . rw [created_afterRegister_of_ne hne]
    exact hi
  . rw [get_afterRegister, if_neg]
    . exact hget
    . intro hkey
      rw [hkey, hfree] at hget
      cases hget

theorem alike_completed {other : Nat} {i : AgentInstance} (hi : s.created[other]? = some i)
    : ∃ j, (s.created.modify instanceId completed)[other]? = some j ∧ i.config.Alike j.config :=
  alike_modify (fun i _ => alike_refl i.config) hi

theorem owned_afterRegister (h : s.Inv) (hplace : s.tasks[task]? = some (.initializing instanceId creation))
    (hfree : s.instances.get creation.config.key = none) (key : String)
    : (s.afterRegister task instanceId creation).owned key = s.owned key := by
  rcases (h.places task _ hplace).2 with ⟨i, hi, halike, _, _⟩
  let s' : AgentPoolManager :=
    { s with
      created := s.created.modify instanceId completed
      instances := s.instances.set creation.config.key instanceId }
  have hload : s'.loadOf key instanceId = creation.config.loadAt key := by
    have hcreated : s'.created[instanceId]? = some (completed i) :=
      @created_afterRegister_self s task creation instanceId i hi
    unfold loadOf
    rw [hcreated]
    exact loadAt_of_alike halike key
  have hothers : s.instances.total (s'.loadOf key) = s.instances.total (s.loadOf key) :=
    total_loadOf_congr h.registered (fun _ _ hi => alike_completed hi) key
  have hregistry : s'.owned key = s.owned key + creation.config.loadAt key := by
    unfold owned
    rw [Dict.total_set_of_notMem (s'.loadOf key) hfree, hothers, hload, add_right_comm]
  have hset := @owned_setPlace s' task _ hplace .finished key
  rw [hregistry] at hset
  exact add_right_cancel (hset.trans (add_zero _))

theorem placeOk_afterRegister (h : s.Inv) (hplace : s.tasks[task]? = some (.initializing instanceId creation))
    (hfree : s.instances.get creation.config.key = none) {other : Nat} {place : Place}
    (hother : (s.afterRegister task instanceId creation).tasks[other]? = some place)
    : (s.afterRegister task instanceId creation).PlaceOk other place := by
  unfold afterRegister at hother
  rw [@getElem?_setPlace { s with
    created := s.created.modify instanceId completed
    instances := s.instances.set creation.config.key instanceId } task other _ .finished hplace] at hother
  split at hother
  . cases hother
    trivial
  . next hne =>
    have hok := h.places other place hother
    have hnext : ∀ removed next, s.NextOk removed next →
        (s.afterRegister task instanceId creation).NextOk removed next := by
      intro removed next hnext
      cases next with
      | finish => trivial
      | create tenantId projectId agentMode configOverride => exact hnext
      | migrate config => exact hnext
      | removeAll others =>
        exact ⟨hnext.1, fun other hother => registered_afterRegister h hplace hfree (hnext.2 other hother)⟩
    cases place with
    | stopping removed next => exact ⟨hok.1, registered_afterRegister h hplace hfree hok.2.1, hnext _ _ hok.2.2⟩
    | releasing removed next =>
      refine ⟨hok.1, registered_afterRegister h hplace hfree hok.2.1, hnext _ _ hok.2.2.1, ?_⟩
      intro i hi
      rcases hok.2.1 with ⟨_, _, hget⟩
      rw [created_afterRegister_of_ne] at hi
      . exact hok.2.2.2 i hi
      . rintro rfl
        exact not_registered h hplace _ hget
    | initializing fresh creation' =>
      rcases hok.2 with ⟨i, hi, hrest⟩
      refine ⟨hok.1, i, ?_, hrest⟩
      rw [created_afterRegister_of_ne]
      . exact hi
      . rintro rfl
        exact hne (h.distinct other task _ _ _ hother hplace)
    | waiting operation => exact hok
    | allocating creation' => exact hok
    | acquiring creation' => exact hok
    | abandoning creation' => exact hok
    | failing failed creation' => exact hok
    | finished => trivial

theorem afterRegister_inv (h : s.Inv) (hplace : s.tasks[task]? = some (.initializing instanceId creation))
    (hfree : s.instances.get creation.config.key = none)
    : (s.afterRegister task instanceId creation).Inv where
  registered := by
    intro key other hget
    rw [get_afterRegister] at hget
    split at hget
    . next hkey =>
      cases hget
      rcases (h.places task _ hplace).2 with ⟨i, hi, halike, _, _⟩
      refine ⟨completed i, created_afterRegister_self hi, ?_, rfl⟩
      rw [hkey]
      exact key_of_alike halike
    . rcases h.registered key other hget with ⟨i, hi, hrest⟩
      refine ⟨i, ?_, hrest⟩
      rw [created_afterRegister_of_ne]
      . exact hi
      . rintro rfl
        exact not_registered h hplace _ hget
  instances := by
    intro other i hi
    by_cases hsame : instanceId = other
    . cases hsame
      rcases (h.places task _ hplace).2 with ⟨j, hj, halike, _, hstatus⟩
      rw [created_afterRegister_self hj] at hi
      cases hi
      refine ⟨(h.instances _ j hj).quota, ?_, ?_⟩
      . intro _
        unfold completed
        rw [hstatus]
        rfl
      . intro _
        refine Or.inl ?_
        rw [get_afterRegister]
        exact if_pos (key_of_alike halike)
    . rw [created_afterRegister_of_ne hsame] at hi
      have hok := h.instances other i hi
      refine ⟨hok.quota, hok.ready, ?_⟩
      intro hinitialized
      rw [get_afterRegister]
      cases hok.stopped hinitialized with
      | inl hget =>
        refine Or.inl ?_
        rw [if_neg]
        . exact hget
        . intro hkey
          rw [hkey, hfree] at hget
          cases hget
      | inr hterminated => exact Or.inr hterminated
  places := fun _ _ hother => placeOk_afterRegister h hplace hfree hother
  distinct := by
    intro first second other creation' creation'' hfirst hsecond
    unfold afterRegister at hfirst hsecond
    rw [@getElem?_setPlace { s with
      created := s.created.modify instanceId completed
      instances := s.instances.set creation.config.key instanceId } task _ _ .finished hplace] at hfirst hsecond
    split at hfirst
    . cases hfirst
    . split at hsecond
      . cases hsecond
      . exact h.distinct first second _ _ _ hfirst hsecond
  loads := by
    intro key
    rw [owned_afterRegister h hplace hfree]
    exact h.loads key
  balanced := h.balanced

end Register

theorem register_inv (h : s.Inv) {instanceId : Nat} (hplace : s.tasks[task]? = some (.initializing instanceId creation))
    (hguard : s.Guarded (.proceed task findings))
    : (s.register task instanceId creation findings).Inv := by
  have hok := h.places task _ hplace
  unfold register
  split
  . next hcreated =>
    have hregistered := afterRegister_inv h hplace (hguard.2.2.2 instanceId creation hplace hcreated)
    exact inv_unlock hregistered (getElem?_setPlace_self hplace) rfl
  . have hfailing := @inv_setPlace s task h _ (.failing instanceId creation) hplace hok.1 (fun _ => rfl)
      (fun _ _ heq => by cases heq)
    apply @inv_modify _ hfailing instanceId
    intro i hi
    rcases hok.2 with ⟨j, hj, _, hinitialized, _⟩
    have heq : j = i := Option.some.inj (hj.symm.trans hi)
    rw [heq] at hinitialized
    refine ⟨alike_refl _, rfl, ?_, ?_, ?_⟩
    . intro htrue
      rw [hinitialized] at htrue
      cases htrue
    . intro htrue
      rw [hinitialized] at htrue
      cases htrue
    . intro _
      refine Or.inr ?_
      intro other creation' hother
      rw [getElem?_setPlace hplace] at hother
      split at hother
      . cases hother
      . next hne => exact hne (h.distinct other task _ _ _ hother hplace)

end Creation

section Removal

variable {instanceId : Nat} {next : Next}

theorem status_of_registered (h : s.Inv) {i : AgentInstance} (hi : s.created[instanceId]? = some i)
    (hget : s.instances.get i.config.key = some instanceId)
    : i.initialized = true ∧ i.status.wasReady = true := by
  rcases h.registered _ _ hget with ⟨j, hj, _, hinitialized⟩
  rw [hi] at hj
  cases hj
  exact ⟨hinitialized, (h.instances instanceId i hi).ready hinitialized⟩

theorem stop_inv (h : s.Inv) (hplace : s.tasks[task]? = some (.stopping instanceId next))
    : (s.stop task instanceId next).Inv := by
  rcases h.places task _ hplace with ⟨hlock, hregistered, hnext⟩
  rcases hregistered with ⟨i, hi, hget⟩
  rcases status_of_registered h hi hget with ⟨hinitialized, hready⟩
  unfold stop
  rw [hi]
  dsimp only
  by_cases hstopped : i.status = .terminated ∨ i.status = .terminating
  . rw [if_pos hstopped]
    have hterminated : i.status = .terminated := by
      cases hstopped with
      | inl hterminated => exact hterminated
      | inr hterminating =>
        rw [hterminating] at hready
        cases hready
    refine inv_setPlace h hplace ⟨hlock, ⟨i, hi, hget⟩, hnext, ?_⟩ (fun _ => rfl) (fun _ _ heq => by cases heq)
    intro j hj
    rw [← Option.some.inj (hi.symm.trans hj)]
    exact hterminated
  . rw [if_neg hstopped]
    have hkept : ∀ j, s.created[instanceId]? = some j →
        s.Kept instanceId j { j with status := i.status.stop } := by
      intro j hj
      have heq := Option.some.inj (hi.symm.trans hj)
      rw [← heq]
      refine ⟨alike_refl _, rfl, ?_, ?_, ?_⟩
      . intro _ _
        exact congrArg _ (AgentInstanceStatus.stop_of_wasReady hready)
      . intro _ _
        exact AgentInstanceStatus.stop_of_wasReady hready
      . intro hstatus
        rw [hstatus] at hready
        cases hready
    have hmodified := inv_modify h hkept
    have hok := placeOk_modify h hkept hplace
    refine inv_setPlace hmodified hplace ⟨hok.1, hok.2.1, hok.2.2, ?_⟩ (fun _ => rfl) (fun _ _ heq => by cases heq)
    intro j hj
    rw [getElem?_modify, if_pos rfl, hi] at hj
    rw [← Option.some.inj hj]
    exact AgentInstanceStatus.stop_of_wasReady hready

theorem removed_inv (h : s.Inv) (hlock : s.lock = some task) (hplace : s.tasks[task]? = some .finished)
    {i : AgentInstance} (hi : s.created[instanceId]? = some i)
    (hget : s.instances.get i.config.key = some instanceId) (hterminated : i.status = .terminated)
    {resources : ResourceManager} (hloads : ∀ key, resources.loadAt key + i.config.loadAt key = s.owned key)
    (hbalanced : resources.Balanced)
    : ({ s with resources, instances := s.instances.erase i.config.key } : AgentPoolManager).Inv where
  registered := by
    intro key other hother
    rw [Dict.get_erase] at hother
    split at hother
    . cases hother
    . exact h.registered key other hother
  instances := by
    intro other j hj
    have hok := h.instances other j hj
    refine ⟨hok.quota, hok.ready, ?_⟩
    intro hinitialized
    rw [Dict.get_erase]
    cases hok.stopped hinitialized with
    | inr hstatus => exact Or.inr hstatus
    | inl hregistered =>
      split
      . next hkey =>
        rw [hkey, hget] at hregistered
        cases hregistered
        rw [hi] at hj
        cases hj
        exact Or.inr hterminated
      . exact Or.inl hregistered
  places := by
    intro other place hother
    have hok := h.places other place hother
    have hfree : place.locked = false := by
      by_contra hlocked
      rw [Bool.not_eq_false] at hlocked
      have hholder := lock_of_locked hok hlocked
      rw [hlock] at hholder
      cases hholder
      rw [hplace] at hother
      cases hother
      cases hlocked
    cases place with
    | stopping removed next => cases hfree
    | releasing removed next => cases hfree
    | waiting operation => exact hok
    | allocating creation => exact hok
    | acquiring creation => exact hok
    | abandoning creation => exact hok
    | initializing fresh creation => exact hok
    | failing failed creation => exact hok
    | finished => trivial
  distinct := h.distinct
  loads := by
    intro key
    have hload : s.loadOf key instanceId = i.config.loadAt key := by
      unfold loadOf
      rw [hi]
      rfl
    have herase := Dict.total_erase_of_get (s.loadOf key) hget
    rw [hload] at herase
    have howned : ({ s with resources, instances := s.instances.erase i.config.key } : AgentPoolManager).owned key
        + i.config.loadAt key = s.owned key := by
      unfold owned
      rw [add_right_comm]
      exact congrArg (· + _) herase
    exact add_right_cancel ((hloads key).trans howned.symm)
  balanced := hbalanced

variable {old : Place}

theorem create_inv (h : s.Inv) (hplace : s.tasks[task]? = some old) (hheld : ∀ key, old.held key = 0)
    {tenantId projectId agentMode : String} {configOverride : Option AgentInstanceConfig}
    (hfits : OverrideFits tenantId projectId configOverride) (hquota : findings.defaultQuota.Nonneg)
    : (s.create task tenantId projectId agentMode configOverride findings).Inv := by
  have hvalid : (⟨tenantId, projectId, configOverride.getD (defaultConfig tenantId projectId agentMode findings)⟩
      : Creation).Valid := by
    cases configOverride with
    | none => exact ⟨rfl, rfl, hquota⟩
    | some config =>
      have hconfig := hfits config rfl
      exact ⟨hconfig.1, hconfig.2.1, hconfig.2.2⟩
  exact inv_setPlace h hplace hvalid (fun key => (hheld key).symm) (fun _ _ heq => by cases heq)

theorem removeAll_inv (h : s.Inv) (hplace : s.tasks[task]? = some old) (hheld : ∀ key, old.held key = 0)
    (hlock : s.lock = some task) {instances : List Nat} (hnodup : instances.Nodup)
    (hregistered : ∀ other ∈ instances, s.Registered other)
    : (s.removeAll task instances).Inv := by
  cases instances with
  | nil => exact inv_finish h hplace hheld
  | cons instanceId instances =>
    rw [List.forall_mem_cons] at hregistered
    exact inv_setPlace h hplace ⟨hlock, hregistered.1, hnodup, hregistered.2⟩ (fun key => (hheld key).symm)
      (fun _ _ heq => by cases heq)

theorem setPlace_setPlace (s : AgentPoolManager) (task : Nat) (first second : Place)
    : (s.setPlace task first).setPlace task second = s.setPlace task second := by
  unfold setPlace
  rw [List.set_set]

theorem proceedNext_setPlace (s : AgentPoolManager) (task : Nat) (next : Next) (findings : Findings)
    : (s.setPlace task .finished).proceedNext task next findings = s.proceedNext task next findings := by
  cases next with
  | finish => exact setPlace_setPlace (s.unlock task) task _ _
  | create tenantId projectId agentMode configOverride => exact setPlace_setPlace s task _ _
  | migrate config => exact setPlace_setPlace (s.unlock task) task _ _
  | removeAll instances =>
    cases instances with
    | nil => exact setPlace_setPlace (s.unlock task) task _ _
    | cons instanceId instances => exact setPlace_setPlace s task _ _

def NextReady (s : AgentPoolManager) : Next → Prop
  | .finish => True
  | .create tenantId projectId _ configOverride => OverrideFits tenantId projectId configOverride
  | .migrate config => config.quota.Nonneg
  | .removeAll instances => instances.Nodup ∧ ∀ other ∈ instances, s.Registered other

theorem proceedNext_inv (h : s.Inv) (hplace : s.tasks[task]? = some .finished) (hlock : s.lock = some task)
    (hnext : s.NextReady next) (hquota : findings.defaultQuota.Nonneg)
    : (s.proceedNext task next findings).Inv := by
  cases next with
  | finish => exact inv_finish h hplace (fun _ => rfl)
  | create tenantId projectId agentMode configOverride => exact create_inv h hplace (fun _ => rfl) hnext hquota
  | migrate config =>
    have hvalid : (⟨config.tenantId, config.projectId, config⟩ : Creation).Valid :=
      ⟨rfl, rfl, hnext⟩
    exact inv_unlock_setPlace h hplace hvalid (fun _ => rfl) rfl (fun _ _ heq => by cases heq)
  | removeAll instances => exact removeAll_inv h hplace (fun _ => rfl) hlock hnext.1 hnext.2

theorem releaseAndRemove_inv (h : s.Inv) (hplace : s.tasks[task]? = some (.releasing instanceId next))
    (hquota : findings.defaultQuota.Nonneg) (hexact : s.countsExactly task = true)
    : (s.releaseAndRemove task instanceId next findings).Inv := by
  rcases h.places task _ hplace with ⟨hlock, ⟨i, hi, hget⟩, hnext, hterminated⟩
  have hheld : i.config.load ≤ s.owned i.config.allocationKey := by
    have hload := loadOf_le_owned h hget i.config.allocationKey
    have hsame : s.loadOf i.config.allocationKey instanceId = i.config.load := by
      unfold loadOf
      rw [hi]
      exact if_pos rfl
    rwa [hsame] at hload
  unfold countsExactly at hexact
  rw [hplace] at hexact
  dsimp only at hexact
  rw [hi, Option.all_some] at hexact
  rcases releaseInstance_of_share h (h.instances instanceId i hi).quota hexact hheld with ⟨hloads, hbalanced⟩
  have hfinished := @inv_setPlace s task h _ .finished hplace trivial (fun _ => rfl) (fun _ _ heq => by cases heq)
  have hself := @getElem?_setPlace_self s task _ .finished hplace
  have howned : ∀ key, (s.setPlace task .finished).owned key = s.owned key := by
    intro key
    rw [← h.loads key, ← hfinished.loads key]
    rfl
  have hremoved := @removed_inv _ task instanceId hfinished hlock hself i hi hget (hterminated i hi) _
    (fun key => (hloads key).trans (howned key).symm) hbalanced
  unfold releaseAndRemove
  rw [hi]
  dsimp only
  rw [← proceedNext_setPlace]
  apply proceedNext_inv hremoved hself hlock _ hquota
  cases next with
  | finish => trivial
  | create tenantId projectId agentMode configOverride => exact hnext
  | migrate config => exact hnext
  | removeAll others =>
    rw [NextOk, List.nodup_cons] at hnext
    refine ⟨hnext.1.2, ?_⟩
    intro other hother
    rcases hnext.2 other hother with ⟨j, hj, hregistered⟩
    refine ⟨j, hj, ?_⟩
    rw [Dict.get_erase, if_neg]
    . exact hregistered
    . intro hkey
      rw [hkey, hget] at hregistered
      cases hregistered
      exact hnext.1.1 hother

end Removal

section Operations

variable {instanceId : Nat}

theorem registered_of_get (h : s.Inv) {key : String} (hget : s.instances.get key = some instanceId)
    : s.Registered instanceId := by
  rcases h.registered key instanceId hget with ⟨i, hi, hkey, _⟩
  refine ⟨i, hi, ?_⟩
  rw [hkey]
  exact hget

theorem nodup_values (h : s.Inv) : s.instances.values.Nodup := by
  unfold Dict.values
  apply List.Nodup.map_on _ (List.Nodup.of_map _ s.instances.nodup)
  rintro ⟨key, instanceId⟩ hfirst ⟨other, instanceId'⟩ hsecond hsame
  cases hsame
  rcases h.registered key instanceId (Dict.get_eq_some.mpr hfirst) with ⟨i, hi, hkey, _⟩
  rcases h.registered other instanceId (Dict.get_eq_some.mpr hsecond) with ⟨j, hj, hother, _⟩
  rw [hi] at hj
  cases hj
  rw [← hkey, ← hother]

theorem expired_registered (h : s.Inv) : ∀ other ∈ s.expired findings, s.Registered other := by
  intro other hother
  have hmem := List.mem_of_mem_filter hother
  rw [Dict.mem_values] at hmem
  rcases hmem with ⟨key, hget⟩
  exact registered_of_get h hget

theorem setTier_inv (h : s.Inv) (tier : ProjectTier) : (s.setTier instanceId tier).Inv := by
  apply inv_modify h
  intro i _
  split
  . exact ⟨⟨rfl, rfl, rfl, rfl⟩, rfl, fun _ => id, fun _ => id, Or.inl⟩
  . exact ⟨alike_refl _, rfl, fun _ => id, fun _ => id, Or.inl⟩

variable {operation : Operation}

theorem stopping_inv (h : s.Inv) (hplace : s.tasks[task]? = some (.waiting operation)) (hlock : s.lock = some task)
    (hregistered : s.Registered instanceId) {next : Next} (hnext : s.NextOk instanceId next)
    : (s.setPlace task (.stopping instanceId next)).Inv :=
  inv_setPlace h hplace ⟨hlock, hregistered, hnext⟩ (fun _ => rfl) (fun _ _ heq => by cases heq)

theorem operate_inv (h : s.Inv) (hplace : s.tasks[task]? = some (.waiting operation)) (hlock : s.lock = some task)
    (hquota : findings.defaultQuota.Nonneg)
    (hremove : ∀ instanceId next, operation = .remove instanceId next → s.Registered instanceId)
    : (s.operate task operation findings).Inv := by
  have hvalid : operation.Valid := h.places task _ hplace
  have hfinish := inv_finish h hplace (fun _ => rfl)
  have hnone : ∀ tenantId projectId, OverrideFits tenantId projectId none := by
    intro tenantId projectId config hconfig
    cases hconfig
  unfold operate
  cases operation with
  | getOrCreateInstance tenantId projectId agentMode configOverride =>
    dsimp only
    split
    . next instanceId hget =>
      split
      . exact hfinish
      . exact stopping_inv h hplace hlock (registered_of_get h hget) hvalid
    . exact create_inv h hplace (fun _ => rfl) hvalid hquota
  | terminateInstance tenantId projectId agentMode =>
    dsimp only
    split
    . next instanceId hget => exact stopping_inv h hplace hlock (registered_of_get h hget) trivial
    . exact hfinish
  | scaleInstances tenantId projectId agentMode targetCount =>
    dsimp only
    split
    . next instanceId hget =>
      have hregistered := registered_of_get h hget
      split
      . split
        . exact stopping_inv h hplace hlock hregistered trivial
        . exact hfinish
      . apply stopping_inv h hplace hlock hregistered
        split
        . exact hnone tenantId projectId
        . trivial
    . split
      . exact create_inv h hplace (fun _ => rfl) (hnone tenantId projectId) hquota
      . exact hfinish
  | setProjectTier tenantId projectId agentMode tier =>
    dsimp only
    split
    . exact inv_finish (setTier_inv h tier) hplace (fun _ => rfl)
    . exact hfinish
  | cleanupExpiredInstances =>
    apply removeAll_inv h hplace (fun _ => rfl) hlock _ (expired_registered h)
    exact (nodup_values h).filter _
  | remove instanceId next =>
    apply stopping_inv h hplace hlock (hremove instanceId next rfl)
    cases next with
    | finish => trivial
    | migrate config => exact hvalid
    | create tenantId projectId agentMode configOverride => exact hvalid.elim
    | removeAll instances => exact hvalid.elim

theorem executeRecovery_inv (h : s.Inv) (action : RecoveryAction) : (s.executeRecovery instanceId action).Inv := by
  unfold executeRecovery
  cases hi : s.created[instanceId]? with
  | none => exact h
  | some i =>
    dsimp only
    split
    . exact h
    . next hinitialized =>
      cases action with
      | restart =>
        apply inv_modify h
        intro j hj
        rw [← Option.some.inj (hi.symm.trans hj)]
        have hready := (h.instances instanceId i hi).ready (by simpa using hinitialized)
        rw [AgentInstanceStatus.initializeInstance_of_wasReady hready]
        exact ⟨alike_refl _, rfl, fun _ => id, fun _ => id, Or.inl⟩
      | migrate => exact inv_spawn h (h.instances instanceId i hi).quota
      | terminate => exact inv_spawn h trivial
      | degrade => exact h
      | alert => exact h

theorem use_inv (h : s.Inv) {i : AgentInstance} {trigger : Trigger} (hi : s.created[instanceId]? = some i)
    (huse : trigger.isUse = true)
    : (s.setStatus instanceId (i.status.tryTransition trigger)).Inv := by
  apply inv_modify h
  intro j hj
  rw [← Option.some.inj (hi.symm.trans hj)]
  refine ⟨alike_refl _, rfl, ?_, ?_, ?_⟩
  . intro _ hready
    exact AgentInstanceStatus.use_wasReady huse hready
  . intro _ hterminated
    dsimp only
    rw [hterminated]
    exact AgentInstanceStatus.use_terminated huse
  . intro hstatus
    refine Or.inl ?_
    dsimp only
    rw [hstatus]
    exact AgentInstanceStatus.use_initializing huse

theorem proceed_inv (h : s.Inv) (hguard : s.Guarded (.proceed task findings)) : (s.proceed task findings).Inv := by
  unfold proceed
  cases hplace : s.tasks[task]? with
  | none => exact h
  | some place =>
    cases place with
    | finished => exact h
    | waiting operation =>
      dsimp only
      split
      . next hlock =>
        apply operate_inv (inv_take h hlock) hplace rfl hguard.1
        intro instanceId next heq
        rw [heq] at hplace
        exact hguard.2.2.1 instanceId next hplace hlock
      . exact h
    | stopping instanceId next => exact stop_inv h hplace
    | releasing instanceId next => exact releaseAndRemove_inv h hplace hguard.1 hguard.2.1
    | allocating creation => exact allocate_inv h hplace
    | acquiring creation => exact acquire_inv h hplace hguard.2.1
    | abandoning creation => exact abandon_inv h hplace hguard.2.1
    | initializing instanceId creation => exact register_inv h hplace hguard
    | failing instanceId creation => exact giveBack_inv h hplace hguard.2.1

theorem step_inv (h : s.Inv) {request : PoolRequest} (hguard : s.Guarded request) : (s.step request).Inv := by
  cases request with
  | getOrCreateInstance tenantId projectId agentMode configOverride => exact inv_spawn h hguard
  | terminateInstance tenantId projectId agentMode => exact inv_spawn h trivial
  | scaleInstances instanceKey targetCount =>
    unfold step
    dsimp only
    split
    . exact h
    . split
      . exact h
      . exact inv_spawn h trivial
  | setProjectTier tenantId projectId tier agentMode => exact inv_spawn h trivial
  | cleanupExpiredInstances => exact inv_spawn h trivial
  | executeRecovery instanceId action => exact executeRecovery_inv h action
  | proceed task findings => exact proceed_inv h hguard
  | use instanceId trigger =>
    unfold step
    dsimp only
    split
    . exact h
    . next i hi =>
      split
      . next huse => exact use_inv h hi huse
      . exact h

end Operations

section Runs

theorem sum_fst_eq_countP {f : Nat → Load} {p : Nat → Bool} (hone : ∀ a, p a = true → (f a).1 = 1)
    (hzero : ∀ a, p a = false → (f a).1 = 0) (l : List Nat)
    : (l.map f).sum.1 = l.countP p := by
  induction l with
  | nil => rfl
  | cons a l ih =>
    rw [List.map_cons, List.sum_cons, Prod.fst_add, ih, List.countP_cons]
    cases hp : p a with
    | true =>
      rw [hone a hp]
      simp [add_comm]
    | false =>
      rw [hzero a hp]
      simp

theorem loadOf_fst_one {key : String} {instanceId : Nat}
    (h : (s.created[instanceId]?).any (·.config.allocationKey = key) = true)
    : (s.loadOf key instanceId).1 = 1 := by
  rw [Option.any_eq_true] at h
  rcases h with ⟨i, hi, hkey⟩
  unfold loadOf
  rw [hi]
  exact congrArg Prod.fst (if_pos (of_decide_eq_true hkey).symm)

theorem loadOf_fst_zero {key : String} {instanceId : Nat}
    (h : (s.created[instanceId]?).any (·.config.allocationKey = key) = false)
    : (s.loadOf key instanceId).1 = 0 := by
  unfold loadOf
  cases hi : s.created[instanceId]? with
  | none => rfl
  | some i =>
    rw [hi] at h
    have hkey : ¬key = i.config.allocationKey := fun heq => of_decide_eq_false h heq.symm
    exact congrArg Prod.fst (if_neg hkey)

theorem held_of_idle (h : s.Idle) (key : String) : (s.tasks.map (·.held key)).sum = 0 := by
  apply List.sum_eq_zero
  intro load hload
  rw [List.mem_map] at hload
  rcases hload with ⟨place, hplace, rfl⟩
  rw [h place hplace]
  rfl

theorem accounted_of_inv (h : s.Inv) (hidle : s.Idle) : s.Accounted where
  active := by
    intro key
    have hload : s.activeInstances key = (s.resources.loadAt key).1 := by
      unfold activeInstances ResourceManager.loadAt
      cases s.resources.allocations.get key with
      | none => rfl
      | some allocation => rfl
    rw [hload, h.loads]
    unfold owned
    rw [held_of_idle hidle, add_zero]
    exact sum_fst_eq_countP (fun _ => loadOf_fst_one) (fun _ => loadOf_fst_zero) s.instances.values
  totals := h.balanced
  stopped := by
    intro instanceId i hi hinitialized hnot
    exact ((h.instances instanceId i hi).stopped hinitialized).resolve_left hnot

def start (config : PoolConfig) (rounded : Rat → Rat) : AgentPoolManager where
  resources := .ofConfig config rounded

theorem start_inv {config : PoolConfig} (h : config.Nonneg) (rounded : Rat → Rat) : (start config rounded).Inv where
  registered := by
    intro key instanceId hget
    cases hget
  instances := by
    intro instanceId i hi
    cases hi
  places := by
    intro task place hplace
    cases hplace
  distinct := by
    intro task other instanceId creation creation' hplace
    cases hplace
  loads := fun _ => (add_zero (0 : Load)).symm
  balanced := ResourceManager.ofConfig_balanced rounded h.instances h.memory h.cpu

abbrev Entry := Machine.Entry AgentPoolManager PoolRequest Unit

def answer (s : AgentPoolManager) (request : PoolRequest) : AgentPoolManager × Unit :=
  (s.step request, ())

/--
Whenever no operation is in progress the accounts are right, in a run whose recoveries find their instances
registered, whose creations find their keys free, and in which nothing that is counted is rounded.
-/
theorem accounted_run {config : PoolConfig} (h : config.Nonneg) (rounded : Rat → Rat) (requests : List PoolRequest)
    (hguarded : ∀ e ∈ Machine.transcript answer (start config rounded) requests, e.before.Guarded e.request)
    : ∀ e ∈ Machine.transcript answer (start config rounded) requests, e.after.Idle → e.after.Accounted := by
  apply @Machine.forall_transcript _ _ _ answer Guarded Inv (fun e => e.after.Idle → e.after.Accounted) _ _
    (start_inv h rounded) requests hguarded
  intro s request hinv hguard
  have hafter := step_inv hinv hguard
  exact ⟨accounted_of_inv hafter, hafter⟩

def smallPool : PoolConfig where
  maxTotalInstances := 10
  maxTotalMemoryMb := 4096
  maxTotalCpuCores := 4

def warmFindings : Findings where
  tier := .warm
  defaultQuota := { memoryRequestMb := 256, cpuRequestCores := 1 / 4, maxInstances := 2 }
  agentCreated := true
  idleExpired := []

def nearest (x : Rat) : Rat :=
  (x * 2 ^ 53 + 1 / 2).floor / 2 ^ 53

def createProject (task : Nat) (projectId : String) : List PoolRequest :=
  .getOrCreateInstance "tenant" projectId "default" none :: List.replicate 4 (.proceed task warmFindings)

theorem smallPool_nonneg : smallPool.Nonneg :=
  ⟨by decide, by decide +kernel, by decide +kernel⟩

def Plain (s : AgentPoolManager) : PoolRequest → Bool
  | .getOrCreateInstance _ _ _ configOverride => configOverride.isNone
  | .proceed task findings =>
    0 ≤ findings.defaultQuota.memoryRequestMb && 0 ≤ findings.defaultQuota.cpuRequestCores && s.countsExactly task &&
      (s.tasks[task]?).all fun place =>
        match place with
        | .waiting (.remove _ _) => false
        | .initializing _ creation => (s.instances.get creation.config.key).isNone
        | _ => true
  | _ => true

theorem guarded_of_plain {request : PoolRequest} (h : s.Plain request = true) : s.Guarded request := by
  cases request with
  | getOrCreateInstance tenantId projectId agentMode configOverride =>
    intro config hconfig
    rw [Plain, Option.isNone_iff_eq_none] at h
    rw [h] at hconfig
    cases hconfig
  | proceed task findings =>
    unfold Plain at h
    rw [Bool.and_eq_true, Bool.and_eq_true, Bool.and_eq_true] at h
    obtain ⟨⟨⟨hmemory, hcpu⟩, hexact⟩, hplace⟩ := h
    refine ⟨⟨of_decide_eq_true hmemory, of_decide_eq_true hcpu⟩, hexact, ?_, ?_⟩
    . intro instanceId next hsome
      rw [hsome] at hplace
      cases hplace
    . intro instanceId creation hsome _
      rw [hsome] at hplace
      exact Option.isNone_iff_eq_none.mp hplace
  | terminateInstance tenantId projectId agentMode => trivial
  | scaleInstances instanceKey targetCount => trivial
  | setProjectTier tenantId projectId tier agentMode => trivial
  | cleanupExpiredInstances => trivial
  | executeRecovery instanceId action => trivial
  | use instanceId trigger => trivial

def terminateFirst : List PoolRequest :=
  createProject 0 "first" ++ createProject 1 "second" ++
    [.terminateInstance "tenant" "first" "default", .proceed 2 warmFindings, .proceed 2 warmFindings]

theorem accounted_terminated
    : (Machine.final answer (start smallPool nearest) (terminateFirst ++ [.proceed 2 warmFindings])).Accounted := by
  have hplain : (Machine.transcript answer (start smallPool nearest) (terminateFirst ++ [.proceed 2 warmFindings])).all
      (fun e => e.before.Plain e.request) = true := by
    decide +kernel
  rw [List.all_eq_true] at hplain
  have haccounted := accounted_run smallPool_nonneg nearest _ (fun e he => guarded_of_plain (hplain e he))
  rw [Machine.transcript_concat, List.forall_mem_append] at haccounted
  rw [Machine.final_concat]
  exact haccounted.2 _ List.mem_cons_self (by unfold Idle; decide +kernel)

def staleRecovery : List PoolRequest :=
  createProject 0 "project" ++
    [.terminateInstance "tenant" "project" "default", .proceed 1 warmFindings,
      .getOrCreateInstance "tenant" "project" "default" none, .executeRecovery 0 .terminate,
      .proceed 1 warmFindings, .proceed 1 warmFindings,
      .proceed 2 warmFindings, .proceed 2 warmFindings, .proceed 2 warmFindings, .proceed 2 warmFindings,
      .proceed 3 warmFindings, .proceed 3 warmFindings]

/--
The recovery removes the new instance from the pool, which goes on running.
-/
theorem orphaned
    : ¬∀ e ∈ Machine.transcript answer (start smallPool nearest) (staleRecovery ++ [.proceed 3 warmFindings]),
        e.after.Idle → e.after.Accounted := by
  intro h
  rw [Machine.transcript_concat, List.forall_mem_append] at h
  have hlast := h.2 _ List.mem_cons_self
  have haccounted := hlast (by unfold Idle; decide +kernel)
  have hstopped := haccounted.stopped 1
    ⟨defaultConfig "tenant" "project" "default" warmFindings, .ready, true⟩ (by decide +kernel) rfl (by decide +kernel)
  cases hstopped

end Runs

end AgentPoolManager
end Pool
end Agent
end MemStack
