import MemStack.Cron.ScheduleFire

/-!
This module contains lemmas about what a step of the schedulers does to the tables.
-/

namespace MemStack
namespace Cron

variable {F : Type}

namespace ScheduleStore

def stateOf (s : ScheduleStore F) (jobId : String) : Option CronScheduleState :=
  s.states.find? (·.jobId = jobId)

section Commit

variable {lib : ScheduleLibrary F} {s s' : ScheduleStore F} {scope : CronOperationScope}
  {candidate : CronDueSchedule F} {next : CronScheduleProjection} {fire : NewCronScheduledFire}
  {authority : CronSchedulerLease}
  {observedAt : Timestamp} {committed : CommittedFire}

structure Commits (lib : ScheduleLibrary F) (s : ScheduleStore F) (scope : CronOperationScope)
    (candidate : CronDueSchedule F) (next : CronScheduleProjection) (fire : NewCronScheduledFire)
    (authority : CronSchedulerLease)
    (observedAt : Timestamp) (s' : ScheduleStore F) (committed : CommittedFire)
    : Prop where
  eq : committed = {
    authority
    observedAt
    nextFireAt := next.nextFireAt
    run := candidate.run scope fire (lib.stored observedAt)
    operation := candidate.operation scope fire (lib.stored observedAt) }
  states : s'.states = Table.update (isCursor scope candidate) (advance lib next candidate.scheduledFor) s.states
  runs : s'.runs = s.runs ++ [committed.run]
  operations : s'.operations = s.operations ++ [committed.operation]
  cursor : ∃ state ∈ s.states, isCursor scope candidate state
  unique : ∀ o ∈ s.operations, ¬committed.operation.conflicts o
  owner : ∃ row, s.owner = some row ∧ row.carries authority
  lasts : observedAt < authority.leaseExpiresAt
  later : next.nextFireAt.all (candidate.scheduledFor < ·)

theorem lasts_of_validateFire (h : candidate.validateFire scope next fire authority observedAt = .ok ())
    : observedAt < authority.leaseExpiresAt := by
  unfold CronDueSchedule.validateFire at h
  by_contra hnot
  rw [if_pos (by simp [not_lt.mp hnot])] at h
  cases h

theorem later_of_validateFire (h : candidate.validateFire scope next fire authority observedAt = .ok ())
    : next.nextFireAt.all (candidate.scheduledFor < ·) := by
  have hnext : candidate.nextIsValid next := by
    unfold CronDueSchedule.validateFire at h
    by_contra hnot
    rw [if_pos (by simp [hnot])] at h
    cases h
  unfold CronDueSchedule.nextIsValid at hnext
  cases hfire : next.nextFireAt with
  | none => rfl
  | some value =>
    rw [hfire] at hnext
    cases hstatus : next.status with
    | active =>
      rw [hstatus] at hnext
      simpa using hnext
    | exhausted =>
      rw [hstatus] at hnext
      cases hnext
    | disabled =>
      rw [hstatus] at hnext
      cases hnext

theorem commitFire_cases (lib : ScheduleLibrary F) (s : ScheduleStore F) (scope : CronOperationScope)
    (candidate : CronDueSchedule F)
    (next : CronScheduleProjection) (fire : NewCronScheduledFire) (authority : CronSchedulerLease)
    (observedAt : Timestamp)
    : ((s.commitFire lib scope candidate next fire authority observedAt).1 = s ∧
        ∀ committed, (s.commitFire lib scope candidate next fire authority observedAt).2 ≠ .ok (some committed)) ∨
      (∃ s' committed, s.commitFire lib scope candidate next fire authority observedAt = (s', .ok (some committed)) ∧
        s'.owner = s.owner ∧ s'.fires = s.fires ∧
        Commits lib s scope candidate next fire authority observedAt s' committed) := by
  unfold commitFire
  split
  . left
    exact ⟨rfl, by intro _ h; cases h⟩
  next hvalid =>
  split
  . left
    exact ⟨rfl, by intro _ h; cases h⟩
  next hlocks =>
  dsimp only
  split
  . left
    exact ⟨rfl, by intro _ h; cases h⟩
  next hkeys =>
  split
  . left
    exact ⟨rfl, by intro _ h; cases h⟩
  . right
    refine ⟨_, _, rfl, rfl, rfl, rfl, rfl, rfl, rfl, ?_, ?_, ?_, lasts_of_validateFire hvalid,
      later_of_validateFire hvalid⟩
    . simp only [locksCursor, Bool.not_eq_true', Bool.not_eq_false, List.any_eq_true, Bool.and_eq_true] at hlocks
      rcases hlocks with ⟨state, hstate, ⟨hcursor, _⟩, _⟩
      exact ⟨state, hstate, hcursor⟩
    . intro o ho hconflicts
      apply hkeys
      rw [Bool.or_eq_true, List.any_eq_true, List.any_eq_true]
      exact .inr ⟨o, ho, hconflicts⟩
    . simp only [locksCursor, Bool.not_eq_true', Bool.not_eq_false, List.any_eq_true, Bool.and_eq_true] at hlocks
      rcases hlocks with ⟨_, _, _, howner⟩
      rw [Option.any_eq_true] at howner
      rcases howner with ⟨row, hrow, hcurrent⟩
      unfold CronSchedulerOwner.isCurrent at hcurrent
      rw [Bool.and_eq_true] at hcurrent
      exact ⟨row, hrow, hcurrent.1⟩

end Commit

section Cases

variable {s s' : ScheduleStore F} {lib : ScheduleLibrary F}

structure Same (s s' : ScheduleStore F) : Prop where
  states : s'.states = s.states
  runs : s'.runs = s.runs
  operations : s'.operations = s.operations

structure Frame (s s' : ScheduleStore F) : Prop where
  owner : s'.owner = s.owner
  fires : ∀ c ∈ s'.fires, ∃ c' ∈ s.fires, c'.authority = c.authority ∧ c'.observedAt = c.observedAt

theorem same_refl (s : ScheduleStore F) : Same s s :=
  ⟨rfl, rfl, rfl⟩

theorem frame_of_fires (howner : s'.owner = s.owner) (hfires : s'.fires = s.fires) : Frame s s' := by
  refine ⟨howner, ?_⟩
  intro c hc
  rw [hfires] at hc
  exact ⟨c, hc, rfl, rfl⟩

theorem same_setFire {call : Nat} {c : FireCall F} {place : FirePlace F} : Same s (s.setFire call c place) :=
  ⟨rfl, rfl, rfl⟩

theorem Commits.of_same {scope : CronOperationScope} {candidate : CronDueSchedule F} {next : CronScheduleProjection}
    {fire : NewCronScheduledFire} {authority : CronSchedulerLease} {observedAt : Timestamp}
    {committed : CommittedFire} {s'' : ScheduleStore F}
    (h : Commits lib s scope candidate next fire authority observedAt s'' committed) (hsame : Same s'' s')
    : Commits lib s scope candidate next fire authority observedAt s' committed := by
  refine ⟨h.eq, ?_, ?_, ?_, h.cursor, h.unique, h.owner, h.lasts, h.later⟩
  . rw [hsame.states, h.states]
  . rw [hsame.runs, h.runs]
  . rw [hsame.operations, h.operations]

theorem frame_setFire {call : Nat} {c : FireCall F} {place : FirePlace F} (hc : c ∈ s.fires)
    (howner : s'.owner = s.owner) (hfires : s'.fires = s.fires)
    : Frame s (s'.setFire call c place) := by
  refine ⟨howner, ?_⟩
  intro c' hc'
  rcases List.mem_or_eq_of_mem_set hc' with hc' | rfl
  . rw [hfires] at hc'
    exact ⟨c', hc', rfl, rfl⟩
  . exact ⟨c, hc, rfl, rfl⟩

theorem proceedFire_cases (s : ScheduleStore F) (lib : ScheduleLibrary F) (call : Nat) (delivery : Delivery)
    : Frame s (s.proceedFire lib call delivery).1 ∧
        ((Same s (s.proceedFire lib call delivery).1 ∧ (s.proceedFire lib call delivery).2 = none) ∨
          (∃ c ∈ s.fires, ∃ candidate next fire s' committed place,
            s.proceedFire lib call delivery = (s'.setFire call c place, some committed) ∧
              Commits lib s c.scope candidate next fire c.authority c.observedAt s' committed)) := by
  unfold proceedFire
  split
  . exact ⟨frame_of_fires rfl rfl, .inl ⟨same_refl s, rfl⟩⟩
  next c hget =>
  have hc := List.mem_of_getElem? hget
  split
  . unfold isCurrent
    split
    . split
      . exact ⟨frame_setFire hc rfl rfl, .inl ⟨same_setFire, rfl⟩⟩
      . exact ⟨frame_setFire hc rfl rfl, .inl ⟨same_setFire, rfl⟩⟩
    . exact ⟨frame_setFire hc rfl rfl, .inl ⟨same_setFire, rfl⟩⟩
  . unfold list
    split
    . exact ⟨frame_setFire hc rfl rfl, .inl ⟨same_setFire, rfl⟩⟩
    . exact ⟨frame_setFire hc rfl rfl, .inl ⟨same_setFire, rfl⟩⟩
  . next candidates summary _ =>
    cases candidates with
    | nil => exact ⟨frame_setFire hc rfl rfl, .inl ⟨same_setFire, rfl⟩⟩
    | cons candidate candidates =>
    unfold commit
    dsimp only
    split
    . exact ⟨frame_setFire hc rfl rfl, .inl ⟨same_setFire, rfl⟩⟩
    next next fire _ =>
    rcases commitFire_cases lib s c.scope candidate next fire c.authority c.observedAt with
      hkept | ⟨s', committed, heq, howner, hfires, hcommits⟩
    . rcases hresult : s.commitFire lib c.scope candidate next fire c.authority c.observedAt with ⟨s', result⟩
      rw [hresult] at hkept
      rcases hkept with ⟨rfl, hnone⟩
      split
      . next heq =>
        cases heq
        exact absurd rfl (hnone _)
      . next heq =>
        cases heq
        exact ⟨frame_setFire hc rfl rfl, .inl ⟨same_setFire, rfl⟩⟩
      . next heq =>
        cases heq
        rename_i committed
        cases committed with
        | none => exact ⟨frame_setFire hc rfl rfl, .inl ⟨same_setFire, rfl⟩⟩
        | some committed => exact absurd rfl (hnone _)
      . exact ⟨frame_setFire hc rfl rfl, .inl ⟨same_setFire, rfl⟩⟩
    . rw [heq]
      cases delivery with
      | ok =>
        exact ⟨frame_setFire hc howner hfires,
          .inr ⟨c, hc, candidate, next, fire, s', committed, _, rfl, hcommits⟩⟩
      | replyLost =>
        exact ⟨frame_setFire hc howner hfires,
          .inr ⟨c, hc, candidate, next, fire, s', committed, _, rfl, hcommits⟩⟩
      | failed => exact ⟨frame_setFire hc rfl rfl, .inl ⟨same_setFire, rfl⟩⟩
  . exact ⟨frame_of_fires rfl rfl, .inl ⟨same_refl s, rfl⟩⟩

structure Materializes (s s' : ScheduleStore F) (row : CronScheduleState) : Prop where
  states : (s.stateOf row.jobId = none ∧ s'.states = s.states ++ [row]) ∨
    (∃ state, s.stateOf row.jobId = some state ∧ state.scheduleRevision < row.scheduleRevision ∧
      s'.states = Table.update (·.jobId = row.jobId) (fun _ => row) s.states)
  runs : s'.runs = s.runs
  operations : s'.operations = s.operations

theorem applyProjection_cases (lib : ScheduleLibrary F) (s : ScheduleStore F) (operation : CronOperation)
    (scheduleRevision : Int)
    (projection : CronScheduleProjection)
    : (s.applyProjection lib operation scheduleRevision projection).1 = s ∨
      (∃ states row, (s.applyProjection lib operation scheduleRevision projection).1 = { s with states } ∧
        Materializes s { s with states } row) := by
  unfold applyProjection
  split
  . exact .inl rfl
  next job _ =>
  split
  . exact .inl rfl
  dsimp only
  split
  . next hfind =>
    right
    exact ⟨_, materialized lib job projection, rfl, .inl ⟨hfind, rfl⟩, rfl, rfl⟩
  . next state hfind =>
    split
    . next hlt =>
      right
      exact ⟨_, { materialized lib job projection with lastFireAt := state.lastFireAt }, rfl,
        .inr ⟨state, hfind, hlt, rfl⟩, rfl, rfl⟩
    . split
      . exact .inl rfl
      . exact .inl rfl

theorem same_setReconcile {call : Nat} {c : ReconcileCall} {place : ReconcilePlace}
    : Same s (s.setReconcile call c place) :=
  ⟨rfl, rfl, rfl⟩

theorem proceedReconcile_cases (s : ScheduleStore F) (lib : ScheduleLibrary F) (call : Nat) (delivery : Delivery)
    : Frame s (s.proceedReconcile lib call delivery) ∧
        (Same s (s.proceedReconcile lib call delivery) ∨
          (∃ row, Materializes s (s.proceedReconcile lib call delivery) row)) := by
  unfold proceedReconcile
  split
  . exact ⟨frame_of_fires rfl rfl, .inl (same_refl s)⟩
  next c _ =>
  split
  . exact ⟨frame_of_fires rfl rfl, .inl same_setReconcile⟩
  . next projection _ _ =>
    unfold apply
    split
    . exact ⟨frame_of_fires rfl rfl, .inl same_setReconcile⟩
    next scheduleRevision _ =>
    split
    . exact ⟨frame_of_fires rfl rfl, .inl same_setReconcile⟩
    have hcases := applyProjection_cases lib s c.operation scheduleRevision projection
    rcases hresult : s.applyProjection lib c.operation scheduleRevision projection with ⟨s', row⟩
    rw [hresult] at hcases
    dsimp only at hcases ⊢
    have hwritten : ∀ place, Frame s (s'.setReconcile call c place) ∧
        (Same s (s'.setReconcile call c place) ∨ (∃ row, Materializes s (s'.setReconcile call c place) row)) := by
      intro place
      rcases hcases with rfl | ⟨states, row, rfl, h⟩
      . exact ⟨frame_of_fires rfl rfl, .inl same_setReconcile⟩
      . exact ⟨frame_of_fires rfl rfl, .inr ⟨row, h.states, h.runs, h.operations⟩⟩
    split
    . apply hwritten
    . apply hwritten
    . apply hwritten
    . exact ⟨frame_of_fires rfl rfl, .inl same_setReconcile⟩
  . exact ⟨frame_of_fires rfl rfl, .inl (same_refl s)⟩

theorem epoch_step (row : CronSchedulerOwner) (txid : Nat) (request : OwnerRequest)
    : ∃ row', (CronSchedulerOwner.step (some row) txid request).1 = some row' ∧ row.ownerEpoch ≤ row'.ownerEpoch := by
  cases request with
  | tryAcquireGlobal ownerId leaseSeconds now =>
    show ∃ row', (CronSchedulerOwner.tryAcquireGlobal (some row) ownerId leaseSeconds now txid).1 = some row' ∧ _
    unfold CronSchedulerOwner.tryAcquireGlobal
    cases CronSchedulerOwner.validateOwnerId ownerId with
    | error e => exact ⟨row, rfl, le_rfl⟩
    | ok _ =>
      dsimp only
      split
      . exact ⟨_, rfl, Int.le_add_one le_rfl⟩
      . exact ⟨row, rfl, le_rfl⟩
  | renew lease leaseSeconds now =>
    show ∃ row', (CronSchedulerOwner.renew (some row) lease leaseSeconds now).1 = some row' ∧ _
    unfold CronSchedulerOwner.renew
    cases lease.validate with
    | error e => exact ⟨row, rfl, le_rfl⟩
    | ok _ =>
      dsimp only
      split
      . exact ⟨_, rfl, le_rfl⟩
      . exact ⟨row, rfl, le_rfl⟩
  | release lease now =>
    show ∃ row', (CronSchedulerOwner.release (some row) lease now).1 = some row' ∧ _
    unfold CronSchedulerOwner.release
    cases lease.validate with
    | error e => exact ⟨row, rfl, le_rfl⟩
    | ok _ =>
      dsimp only
      split
      . exact ⟨_, rfl, le_rfl⟩
      . exact ⟨row, rfl, le_rfl⟩
  | delegate kind now => exact ⟨_, rfl, le_rfl⟩

structure Keeps (s : ScheduleStore F) (request : ScheduleRequest F) (s' : ScheduleStore F) : Prop where
  epochs : ∀ row, s.owner = some row → ∃ row', s'.owner = some row' ∧ row.ownerEpoch ≤ row'.ownerEpoch
  began : ∀ c ∈ s'.fires, (∃ c' ∈ s.fires, c'.authority = c.authority ∧ c'.observedAt = c.observedAt) ∨
    (∃ tenantId projectId limit, request = .fireDue c.authority tenantId projectId limit ∧ c.observedAt = s.now)

theorem Frame.keeps (h : Frame s s') (request : ScheduleRequest F) : Keeps s request s' := by
  refine ⟨?_, ?_⟩
  . intro row hrow
    rw [← h.owner] at hrow
    exact ⟨row, hrow, le_rfl⟩
  . intro c hc
    exact .inl (h.fires c hc)

theorem keeps_of_fires {request : ScheduleRequest F} (howner : s'.owner = s.owner) (hfires : s'.fires = s.fires)
    : Keeps s request s' :=
  (frame_of_fires howner hfires).keeps request

inductive Effect (lib : ScheduleLibrary F) (s : ScheduleStore F) : ScheduleStore F → Option CommittedFire → Prop
  | same {s' : ScheduleStore F} (h : Same s s') : Effect lib s s' none
  | materializes {s' : ScheduleStore F} {row : CronScheduleState} (h : Materializes s s' row) : Effect lib s s' none
  | commits {s' : ScheduleStore F} {c : FireCall F} {candidate : CronDueSchedule F} {next : CronScheduleProjection}
      {fire : NewCronScheduledFire} {committed : CommittedFire} (hc : c ∈ s.fires)
      (h : Commits lib s c.scope candidate next fire c.authority c.observedAt s' committed)
      : Effect lib s s' (some committed)

theorem answer_cases (s : ScheduleStore F) (lib : ScheduleLibrary F) (request : ScheduleRequest F)
    : Keeps s request (s.answer lib request).1 ∧ Effect lib s (s.answer lib request).1 (s.answer lib request).2 := by
  cases request with
  | clock now => exact ⟨keeps_of_fires rfl rfl, .same ⟨rfl, rfl, rfl⟩⟩
  | owner request =>
    refine ⟨⟨?_, ?_⟩, .same ⟨rfl, rfl, rfl⟩⟩
    . intro row hrow
      rcases epoch_step row s.txid request with ⟨row', hstep, hle⟩
      refine ⟨row', ?_, hle⟩
      rw [← hstep, ← hrow]
      rfl
    . intro c hc
      exact .inl ⟨c, hc, rfl, rfl⟩
  | createJob job =>
    show Keeps s _ (s.createJob job) ∧ Effect lib s (s.createJob job) none
    unfold createJob
    split
    . exact ⟨keeps_of_fires rfl rfl, .same ⟨rfl, rfl, rfl⟩⟩
    . exact ⟨keeps_of_fires rfl rfl, .same ⟨rfl, rfl, rfl⟩⟩
  | editJob id new => exact ⟨keeps_of_fires rfl rfl, .same ⟨rfl, rfl, rfl⟩⟩
  | fireDue authority tenantId projectId limit =>
    refine ⟨⟨?_, ?_⟩, .same ⟨rfl, rfl, rfl⟩⟩
    . intro row hrow
      exact ⟨row, hrow, le_rfl⟩
    . intro c hc
      rcases List.mem_append.mp hc with hc | hc
      . exact .inl ⟨c, hc, rfl, rfl⟩
      . rw [List.mem_singleton] at hc
        right
        refine ⟨tenantId, projectId, limit, ?_, ?_⟩
        . rw [hc]
        . rw [hc]
  | fire call delivery =>
    rcases proceedFire_cases s lib call delivery with ⟨hframe, hcases⟩
    refine ⟨hframe.keeps _, ?_⟩
    show Effect lib s (s.proceedFire lib call delivery).1 (s.proceedFire lib call delivery).2
    rcases hcases with ⟨hsame, hnone⟩ | ⟨c, hc, candidate, next, fire, s', committed, place, heq, hcommits⟩
    . rw [hnone]
      exact .same hsame
    . rw [heq]
      exact .commits hc (hcommits.of_same same_setFire)
  | crashFire call =>
    rw [answer]
    split
    . exact ⟨keeps_of_fires rfl rfl, .same ⟨rfl, rfl, rfl⟩⟩
    . next hget =>
      exact ⟨(frame_setFire (List.mem_of_getElem? hget) rfl rfl).keeps _, .same same_setFire⟩
  | reconcile operation => exact ⟨keeps_of_fires rfl rfl, .same ⟨rfl, rfl, rfl⟩⟩
  | proceedReconcile call delivery =>
    rcases proceedReconcile_cases s lib call delivery with ⟨hframe, hcases⟩
    refine ⟨hframe.keeps _, ?_⟩
    rcases hcases with hsame | ⟨row, h⟩
    . exact .same hsame
    . exact .materializes h
  | crashReconcile call =>
    rw [answer]
    split
    . exact ⟨keeps_of_fires rfl rfl, .same ⟨rfl, rfl, rfl⟩⟩
    . exact ⟨keeps_of_fires rfl rfl, .same same_setReconcile⟩

theorem step_cases (s : ScheduleStore F) (lib : ScheduleLibrary F) (request : ScheduleRequest F)
    : Keeps s request (s.step lib request).1 ∧ Effect lib s (s.step lib request).1 (s.step lib request).2 := by
  rcases answer_cases s lib request with ⟨hkeeps, heffect⟩
  refine ⟨⟨hkeeps.epochs, hkeeps.began⟩, ?_⟩
  unfold step
  rcases hanswer : s.answer lib request with ⟨s', reply⟩
  rw [hanswer] at heffect
  cases heffect with
  | same h => exact .same ⟨h.states, h.runs, h.operations⟩
  | materializes h => exact .materializes ⟨h.states, h.runs, h.operations⟩
  | commits hc h => exact .commits hc (h.of_same ⟨rfl, rfl, rfl⟩)

end Cases

section States

variable {s s' : ScheduleStore F} {jobId : String}

theorem stateOf_iff (hkeys : (s.states.map (·.jobId)).Nodup) {state : CronScheduleState}
    : s.stateOf jobId = some state ↔ state ∈ s.states ∧ state.jobId = jobId := by
  constructor
  . intro h
    exact ⟨List.mem_of_find?_eq_some h, by simpa using List.find?_some h⟩
  . rintro ⟨hmem, hid⟩
    unfold stateOf
    cases hfind : s.states.find? (·.jobId = jobId) with
    | none =>
      have := List.find?_eq_none.mp hfind state hmem
      simp [hid] at this
    | some other =>
      have hother : other.jobId = jobId := by simpa using List.find?_some hfind
      rw [Table.eq_of_key hkeys (List.mem_of_find?_eq_some hfind) hmem (hother.trans hid.symm)]

theorem stateOf_update {p : CronScheduleState → Bool} {f : CronScheduleState → CronScheduleState}
    (hstates : s'.states = Table.update p f s.states) (hf : ∀ state, p state → (f state).jobId = state.jobId)
    (jobId : String)
    : s'.stateOf jobId = (s.stateOf jobId).map fun state => if p state then f state else state := by
  unfold stateOf
  rw [hstates]
  unfold Table.update
  rw [List.find?_map]
  congr 2
  funext state
  dsimp only [Function.comp]
  split
  . next hp => rw [hf state hp]
  . rfl

theorem Materializes.stateOf {row : CronScheduleState} (h : Materializes s s' row) (jobId : String)
    : s'.stateOf jobId = if jobId = row.jobId then some row else s.stateOf jobId := by
  rcases h.states with ⟨hnone, hstates⟩ | ⟨state, hsome, _, hstates⟩
  . unfold ScheduleStore.stateOf at hnone ⊢
    rw [hstates, List.find?_append]
    split
    . next heq =>
      rw [heq, hnone]
      simp
    . next hne => simp [Ne.symm hne]
  . have hupdate := stateOf_update hstates (by
      intro state hp
      simpa using (of_decide_eq_true hp).symm) jobId
    rw [hupdate]
    split
    . next heq =>
      rw [heq, hsome]
      have hid : state.jobId = row.jobId := by simpa using List.find?_some hsome
      simp [hid]
    . next hne =>
      cases hfind : s.stateOf jobId with
      | none => rfl
      | some other =>
        have hid : other.jobId = jobId := by simpa using List.find?_some hfind
        simp [hid, hne]

theorem Commits.stateOf {scope : CronOperationScope} {candidate : CronDueSchedule F} {next : CronScheduleProjection}
    {fire : NewCronScheduledFire} {authority : CronSchedulerLease} {observedAt : Timestamp} {lib : ScheduleLibrary F}
    {committed : CommittedFire} (h : Commits lib s scope candidate next fire authority observedAt s' committed)
    (jobId : String)
    : s'.stateOf jobId = (s.stateOf jobId).map fun state =>
        if isCursor scope candidate state then advance lib next candidate.scheduledFor state else state := by
  apply stateOf_update h.states
  intro _ _
  rfl

end States

end ScheduleStore

end Cron
end MemStack
