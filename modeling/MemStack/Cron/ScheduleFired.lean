import MemStack.Cron.ScheduleFireSteps
import MemStack.Util.Machine

/-!
This module contains the verification that due schedules are fired once, and by the holder of the lease.
-/

namespace MemStack
namespace Cron

open History Machine

variable {F : Type}

structure Cursor where
  jobId : String
  scheduleRevision : Int
  scheduledFor : Timestamp
  deriving DecidableEq, Repr

def CronJobRun.cursor (run : CronJobRun) : Cursor where
  jobId := run.jobId
  scheduleRevision := run.scheduleRevision
  scheduledFor := run.scheduledFor

def CronOperation.cursor? (o : CronOperation) : Option Cursor :=
  match o.kind, o.scheduleRevision, o.scheduledFor with
  | .executeRun, some scheduleRevision, some scheduledFor => some { jobId := o.jobId, scheduleRevision, scheduledFor }
  | _, _, _ => none

def CronScheduleState.cursor? (state : CronScheduleState) : Option Cursor :=
  state.nextFireAt.map fun scheduledFor =>
    { jobId := state.jobId, scheduleRevision := state.scheduleRevision, scheduledFor }

namespace ScheduleStore

section Statements

variable (s : ScheduleStore F)

def runsOf (cursor : Cursor) : List CronJobRun :=
  s.runs.filter (·.cursor = cursor)

def executionsOf (cursor : Cursor) : List CronOperation :=
  s.operations.filter (·.cursor? = some cursor)

def cursorOf (jobId : String) : Option Cursor :=
  (s.stateOf jobId).bind (·.cursor?)

structure ExactlyOnce : Prop where
  runs : ∀ cursor, (s.runsOf cursor).length ≤ 1
  executions : ∀ cursor, (s.executionsOf cursor).length ≤ 1
  both : ∀ cursor, s.runsOf cursor = [] ↔ s.executionsOf cursor = []

abbrev Entry (F : Type) := Machine.Entry (ScheduleStore F) (ScheduleRequest F) (Option CommittedFire)

structure Creates (e : Entry F) (cursor : Cursor) : Prop where
  before : e.before.runsOf cursor = [] ∧ e.before.executionsOf cursor = []
  after : e.after.runsOf cursor ≠ [] ∧ e.after.executionsOf cursor ≠ []

-- Within a schedule revision the cursor of a job only moves when the run and the operation are created, and
-- moves then if the column keeps all of the next point in time. A schedule revision is only replaced by a
-- later one.
structure Moves (lib : ScheduleLibrary F) (e : Entry F) : Prop where
  stays : ∀ jobId state, e.before.stateOf jobId = some state →
    ∃ state', e.after.stateOf jobId = some state' ∧ state.scheduleRevision ≤ state'.scheduleRevision
  moved : ∀ cursor state state', e.before.cursorOf cursor.jobId = some cursor →
    e.before.stateOf cursor.jobId = some state → e.after.stateOf cursor.jobId = some state' →
    state'.scheduleRevision = state.scheduleRevision →
    e.after.cursorOf cursor.jobId ≠ some cursor → Creates e cursor
  passes : ∀ fire, e.reply = some fire →
    e.before.cursorOf fire.run.jobId = some fire.run.cursor ∧
      ∃ state', e.after.stateOf fire.run.jobId = some state' ∧
        state'.scheduleRevision = fire.run.scheduleRevision ∧
        ((∀ next, fire.nextFireAt = some next → lib.stored next = next) →
          state'.nextFireAt.all (fire.run.scheduledFor < ·))

structure Held (past : List (Entry F)) (e : Entry F) (fire : CommittedFire) : Prop where
  creates : Creates e fire.run.cursor
  current : ∃ row, e.before.owner = some row ∧ row.carries fire.authority
  began : ∃ p ∈ past, ∃ tenantId projectId limit,
    p.request = .fireDue fire.authority tenantId projectId limit ∧ p.before.now < fire.authority.leaseExpiresAt
  epochs : ∀ p ∈ past, ∀ fire', p.reply = some fire' → fire'.authority.ownerEpoch ≤ fire.authority.ownerEpoch

structure Fired (lib : ScheduleLibrary F) (past : List (Entry F)) (e : Entry F) : Prop where
  exactlyOnce : e.after.ExactlyOnce
  moves : Moves lib e
  held : ∀ fire, e.reply = some fire → Held past e fire
  committed : ∀ cursor, Creates e cursor → ∃ fire, e.reply = some fire ∧ fire.run.cursor = cursor

end Statements

section Invariant

structure Inv (past : List (Entry F)) (s : ScheduleStore F) : Prop where
  keys : (s.states.map (·.jobId)).Nodup
  paired : s.operations.map (·.cursor?) = s.runs.map (some ·.cursor)
  nodup : (s.runs.map (·.cursor)).Nodup
  scheduled : ∀ o ∈ s.operations, o.triggerType = some "scheduled"
  calls : ∀ c ∈ s.fires, ∃ p ∈ past, ∃ tenantId projectId limit,
    p.request = .fireDue c.authority tenantId projectId limit ∧ p.before.now = c.observedAt
  epochs : ∀ p ∈ past, ∀ fire, p.reply = some fire →
    ∃ row, s.owner = some row ∧ fire.authority.ownerEpoch ≤ row.ownerEpoch

theorem length_filter_le_one {α κ : Type} [DecidableEq κ] {key : α → κ} {l : List α} (h : (l.map key).Nodup) (k : κ)
    : (l.filter (key · = k)).length ≤ 1 := by
  have hcount := List.nodup_iff_count_le_one.mp h k
  rw [List.count_eq_countP, List.countP_map, List.countP_eq_length_filter] at hcount
  simpa [Function.comp_def, beq_eq_decide] using hcount

variable {past : List (Entry F)} {s s' : ScheduleStore F}

theorem runsOf_eq_nil (cursor : Cursor) : s.runsOf cursor = [] ↔ cursor ∉ s.runs.map (·.cursor) := by
  unfold runsOf
  rw [List.filter_eq_nil_iff, List.mem_map]
  simp

theorem executionsOf_eq_nil (h : s.operations.map (·.cursor?) = s.runs.map (some ·.cursor)) (cursor : Cursor)
    : s.executionsOf cursor = [] ↔ cursor ∉ s.runs.map (·.cursor) := by
  have hmem : some cursor ∈ s.operations.map (·.cursor?) ↔ cursor ∈ s.runs.map (·.cursor) := by
    rw [h, List.mem_map, List.mem_map]
    simp
  rw [← hmem]
  unfold executionsOf
  rw [List.filter_eq_nil_iff, List.mem_map]
  simp

theorem Inv.exactlyOnce (h : Inv past s) : s.ExactlyOnce := by
  refine ⟨?_, ?_, ?_⟩
  . intro cursor
    apply length_filter_le_one h.nodup
  . intro cursor
    apply length_filter_le_one
    rw [h.paired]
    have hmap : s.runs.map (some ·.cursor) = (s.runs.map (·.cursor)).map some := by
      rw [List.map_map]
      rfl
    rw [hmap]
    apply h.nodup.map (Option.some_injective _)
  . intro cursor
    rw [runsOf_eq_nil, executionsOf_eq_nil h.paired]

theorem init_inv : Inv [] ({} : ScheduleStore F) :=
  ⟨List.nodup_nil, rfl, List.nodup_nil, by simp, by simp, by simp⟩

theorem not_creates_of_runs {e : Entry F} (hruns : e.after.runs = e.before.runs) (cursor : Cursor)
    : ¬ Creates e cursor := by
  intro h
  have hbefore := h.before.1
  apply h.after.1
  unfold runsOf at *
  rw [hruns]
  exact hbefore

theorem nodup_keys_update {p : CronScheduleState → Bool} {f : CronScheduleState → CronScheduleState}
    (hkeys : (s.states.map (·.jobId)).Nodup) (hf : ∀ state, p state → (f state).jobId = state.jobId)
    : ((Table.update p f s.states).map (·.jobId)).Nodup := by
  have hmap : (Table.update p f s.states).map (·.jobId) = s.states.map (·.jobId) := by
    unfold Table.update
    rw [List.map_map]
    apply List.map_congr_left
    intro state _
    dsimp only [Function.comp]
    split
    . next hp => exact hf state hp
    . rfl
  rwa [hmap]

section Same

variable {lib : ScheduleLibrary F} {e : Entry F}

theorem Same.moves (h : Same e.before e.after) (hreply : e.reply = none) : Moves lib e := by
  have hstate : ∀ jobId, e.after.stateOf jobId = e.before.stateOf jobId := by
    intro jobId
    unfold stateOf
    rw [h.states]
  refine ⟨?_, ?_, ?_⟩
  . intro jobId state hbefore
    exact ⟨state, (hstate jobId).trans hbefore, le_rfl⟩
  . intro cursor _ _ hcursor _ _ _ hmoved
    have hafter : e.after.cursorOf cursor.jobId = some cursor := by
      unfold cursorOf at *
      rwa [hstate]
    exact absurd hafter hmoved
  . intro fire hfire
    rw [hreply] at hfire
    cases hfire

end Same

section Materializes

variable {lib : ScheduleLibrary F} {e : Entry F} {row : CronScheduleState}

theorem Materializes.later (h : Materializes s s' row) {state : CronScheduleState}
    (hstate : s.stateOf row.jobId = some state)
    : state.scheduleRevision < row.scheduleRevision := by
  rcases h.states with ⟨hnone, _⟩ | ⟨state', hsome, hlt, _⟩
  . rw [hstate] at hnone
    cases hnone
  . rw [hstate] at hsome
    cases hsome
    exact hlt

theorem Materializes.moves (h : Materializes e.before e.after row) (hreply : e.reply = none) : Moves lib e := by
  refine ⟨?_, ?_, ?_⟩
  . intro jobId state hbefore
    rw [h.stateOf]
    split
    . next heq =>
      rw [heq] at hbefore
      exact ⟨row, rfl, le_of_lt (h.later hbefore)⟩
    . exact ⟨state, hbefore, le_rfl⟩
  . intro cursor state state' hcursor hbefore hafter hrevision hmoved
    have hne : cursor.jobId ≠ row.jobId := by
      intro heq
      rw [h.stateOf, if_pos heq] at hafter
      cases hafter
      rw [heq] at hbefore
      exact absurd hrevision (h.later hbefore).ne'
    have hstays : e.after.cursorOf cursor.jobId = some cursor := by
      unfold cursorOf at *
      rwa [h.stateOf, if_neg hne]
    exact absurd hstays hmoved
  . intro fire hfire
    rw [hreply] at hfire
    cases hfire

theorem Materializes.keys (h : Materializes s s' row) (hkeys : (s.states.map (·.jobId)).Nodup)
    : (s'.states.map (·.jobId)).Nodup := by
  rcases h.states with ⟨hnone, hstates⟩ | ⟨state, _, _, hstates⟩
  . rw [hstates, List.map_append, List.map_singleton]
    apply List.Nodup.append hkeys (List.nodup_singleton _)
    intro jobId hjobId hrow
    rw [List.mem_singleton] at hrow
    rcases List.mem_map.mp hjobId with ⟨state, hmem, hid⟩
    have := List.find?_eq_none.mp hnone state hmem
    simp [hid, hrow] at this
  . rw [hstates]
    apply nodup_keys_update hkeys
    intro state hp
    simpa using (of_decide_eq_true hp).symm

end Materializes

section Commits

variable {lib : ScheduleLibrary F} {scope : CronOperationScope} {candidate : CronDueSchedule F}
  {next : CronScheduleProjection} {fire : NewCronScheduledFire} {authority : CronSchedulerLease}
  {observedAt : Timestamp}
  {committed : CommittedFire} {state : CronScheduleState}

def candidateCursor (candidate : CronDueSchedule F) : Cursor where
  jobId := candidate.snapshot.jobId
  scheduleRevision := candidate.snapshot.scheduleRevision
  scheduledFor := candidate.scheduledFor

theorem cursor?_of_isCursor (h : isCursor scope candidate state)
    : state.cursor? = some (candidateCursor candidate) := by
  simp only [isCursor, Bool.and_eq_true, decide_eq_true_eq] at h
  rcases h with ⟨⟨⟨⟨⟨⟨hjob, _⟩, _⟩, _⟩, hrevision⟩, _⟩, hfire⟩
  unfold CronScheduleState.cursor?
  rw [hfire, hjob, hrevision]
  rfl

theorem jobId_of_cursor? {cursor : Cursor} (h : state.cursor? = some cursor)
    : state.jobId = cursor.jobId ∧ state.scheduleRevision = cursor.scheduleRevision ∧
        state.nextFireAt = some cursor.scheduledFor := by
  unfold CronScheduleState.cursor? at h
  cases hfire : state.nextFireAt with
  | none =>
    rw [hfire] at h
    cases h
  | some scheduledFor =>
    rw [hfire] at h
    cases h
    exact ⟨rfl, rfl, rfl⟩

theorem Commits.run_cursor (h : Commits lib s scope candidate next fire authority observedAt s' committed)
    : committed.run.cursor = candidateCursor candidate := by
  rw [h.eq]
  rfl

theorem Commits.operation_cursor (h : Commits lib s scope candidate next fire authority observedAt s' committed)
    : committed.operation.cursor? = some committed.run.cursor := by
  rw [h.eq]
  rfl

theorem Commits.states_at (h : Commits lib s scope candidate next fire authority observedAt s' committed)
    (hkeys : (s.states.map (·.jobId)).Nodup)
    : ∃ state, s.stateOf committed.run.jobId = some state ∧ state.cursor? = some committed.run.cursor ∧
        s'.stateOf committed.run.jobId = some (advance lib next candidate.scheduledFor state) := by
  rcases h.cursor with ⟨state, hmem, hcursor⟩
  have hjob := (jobId_of_cursor? (cursor?_of_isCursor hcursor)).1
  have hstate : s.stateOf committed.run.jobId = some state := by
    apply (stateOf_iff hkeys).mpr
    refine ⟨hmem, ?_⟩
    rw [hjob, ← h.run_cursor]
    rfl
  refine ⟨state, hstate, ?_, ?_⟩
  . rw [cursor?_of_isCursor hcursor, h.run_cursor]
  . rw [h.stateOf, hstate, Option.map_some, if_pos hcursor]

theorem of_operation_cursor? {o : CronOperation} {cursor : Cursor} (h : o.cursor? = some cursor)
    : o.kind = .executeRun ∧ o.jobId = cursor.jobId ∧ o.scheduledFor = some cursor.scheduledFor := by
  unfold CronOperation.cursor? at h
  split at h
  . next hkind _ hscheduledFor =>
    cases h
    exact ⟨hkind, rfl, hscheduledFor⟩
  . cases h

theorem conflicts_of_cursor? {o o' : CronOperation} {cursor : Cursor} (h : o.cursor? = some cursor)
    (h' : o'.cursor? = some cursor) (htrigger : o.triggerType = some "scheduled")
    (htrigger' : o'.triggerType = some "scheduled")
    : o.conflicts o' := by
  rcases of_operation_cursor? h with ⟨hkind, hjob, hscheduledFor⟩
  rcases of_operation_cursor? h' with ⟨hkind', hjob', hscheduledFor'⟩
  unfold CronOperation.conflicts
  rw [Bool.or_eq_true]
  right
  rw [hkind, hkind', htrigger, htrigger', hjob, hjob', hscheduledFor, hscheduledFor']
  simp

theorem Commits.fresh (h : Commits lib s scope candidate next fire authority observedAt s' committed)
    (hinv : Inv past s)
    : committed.run.cursor ∉ s.runs.map (·.cursor) := by
  intro hmem
  have hmem' : some committed.run.cursor ∈ s.operations.map (·.cursor?) := by
    rw [hinv.paired, List.mem_map]
    rcases List.mem_map.mp hmem with ⟨run, hrun, heq⟩
    exact ⟨run, hrun, congrArg some heq⟩
  rcases List.mem_map.mp hmem' with ⟨o, ho, hcursor⟩
  apply h.unique o ho
  apply conflicts_of_cursor? h.operation_cursor hcursor _ (hinv.scheduled o ho)
  rw [h.eq]
  rfl

theorem Commits.creates_iff {e : Entry F}
    (h : Commits lib e.before scope candidate next fire authority observedAt e.after committed)
    (hinv : Inv past e.before) (cursor : Cursor)
    : Creates e cursor ↔ cursor = committed.run.cursor := by
  have hfresh := h.fresh hinv
  constructor
  . intro hcreates
    have hbefore := hcreates.before.1
    have hafter := hcreates.after.1
    unfold runsOf at hbefore hafter
    rw [h.runs, List.filter_append, hbefore, List.nil_append] at hafter
    by_contra hne
    apply hafter
    simp [Ne.symm hne]
  . rintro rfl
    refine ⟨⟨?_, ?_⟩, ?_, ?_⟩
    . rwa [runsOf_eq_nil]
    . rwa [executionsOf_eq_nil hinv.paired]
    . unfold runsOf
      rw [h.runs, List.filter_append]
      simp
    . unfold executionsOf
      rw [h.operations, List.filter_append]
      simp [h.operation_cursor]

theorem Commits.moves {e : Entry F}
    (h : Commits lib e.before scope candidate next fire authority observedAt e.after committed)
    (hinv : Inv past e.before)
    (hreply : e.reply = some committed)
    : Moves lib e := by
  rcases h.states_at hinv.keys with ⟨state, hstate, hcursor, hafter⟩
  refine ⟨?_, ?_, ?_⟩
  . intro jobId old hold
    rw [h.stateOf, hold, Option.map_some]
    refine ⟨_, rfl, ?_⟩
    split
    . apply le_rfl
    . apply le_rfl
  . intro other old _ hother hold _ _ hgone
    rw [h.creates_iff hinv]
    unfold cursorOf at hother
    rw [hold] at hother
    by_contra hne
    apply hgone
    unfold cursorOf
    rw [h.stateOf, hold, Option.map_some, if_neg]
    . exact hother
    . intro hat
      have hat := cursor?_of_isCursor hat
      rw [← h.run_cursor] at hat
      change old.cursor? = some other at hother
      rw [hat] at hother
      cases hother
      exact hne rfl
  . intro fire' hfire
    rw [hreply] at hfire
    cases hfire
    refine ⟨?_, _, hafter, (jobId_of_cursor? hcursor).2.1, ?_⟩
    . unfold cursorOf
      rw [hstate]
      exact hcursor
    . intro hstored
      have hlater := h.later
      rw [h.eq] at hstored ⊢
      change ∀ value, next.nextFireAt = some value → lib.stored value = value at hstored
      show (next.nextFireAt.map lib.stored).all _ = true
      cases hnext : next.nextFireAt with
      | none => rfl
      | some value =>
        rw [Option.map_some, hstored value hnext]
        rwa [hnext] at hlater

end Commits

section Run

variable {lib : ScheduleLibrary F} {request : ScheduleRequest F}

theorem Keeps.calls (h : Keeps s request s') (hinv : Inv past s) (reply : Option CommittedFire)
    : ∀ c ∈ s'.fires, ∃ p ∈ past ++ [{ before := s, request, reply, after := s' }], ∃ tenantId projectId limit,
        p.request = .fireDue c.authority tenantId projectId limit ∧ p.before.now = c.observedAt := by
  intro c hc
  rcases h.began c hc with ⟨c', hc', hauthority, hobserved⟩ | ⟨tenantId, projectId, limit, hrequest, hnow⟩
  . rcases hinv.calls c' hc' with ⟨p, hp, tenantId, projectId, limit, hrequest, hnow⟩
    refine ⟨p, List.mem_append_left _ hp, tenantId, projectId, limit, ?_, ?_⟩
    . rw [hrequest, hauthority]
    . rw [hnow, hobserved]
  . refine ⟨_, List.mem_append_right _ (List.mem_singleton.mpr rfl), tenantId, projectId, limit, hrequest, ?_⟩
    exact hnow.symm

theorem Commits.held {e : Entry F} {c : FireCall F} {candidate : CronDueSchedule F} {next : CronScheduleProjection}
    {fire : NewCronScheduledFire} {committed : CommittedFire} (hinv : Inv past e.before) (hc : c ∈ e.before.fires)
    (h : Commits lib e.before c.scope candidate next fire c.authority c.observedAt e.after committed)
    : Held past e committed := by
  have hauthority : committed.authority = c.authority := by
    rw [h.eq]
  rcases h.owner with ⟨row, hrow, hcarries⟩
  refine ⟨(h.creates_iff hinv _).mpr rfl, ?_, ?_, ?_⟩
  . rw [hauthority]
    exact ⟨row, hrow, hcarries⟩
  . rcases hinv.calls c hc with ⟨p, hp, tenantId, projectId, limit, hrequest, hnow⟩
    rw [hauthority]
    refine ⟨p, hp, tenantId, projectId, limit, hrequest, ?_⟩
    rw [hnow]
    exact h.lasts
  . intro p hp fire' hreply
    rcases hinv.epochs p hp fire' hreply with ⟨row', hrow', hle⟩
    rw [hrow] at hrow'
    cases hrow'
    have hepoch : row.ownerEpoch = c.authority.ownerEpoch := by
      simp only [CronSchedulerOwner.carries, Bool.and_eq_true, decide_eq_true_eq] at hcarries
      exact hcarries.1.1.2
    rw [hauthority, ← hepoch]
    exact hle

theorem Inv.step (hinv : Inv past s) (lib : ScheduleLibrary F) (request : ScheduleRequest F)
    : Fired lib past (entry (step lib) s request) ∧
        Inv (past ++ [entry (step lib) s request]) (s.step lib request).1 := by
  rcases step_cases s lib request with ⟨hkeeps, heffect⟩
  unfold entry
  rcases hstep : s.step lib request with ⟨s', reply⟩
  rw [hstep] at hkeeps heffect
  have hcalls := hkeeps.calls hinv reply
  have hepochs : (∀ fire, reply = some fire → ∃ row, s'.owner = some row ∧ fire.authority.ownerEpoch ≤ row.ownerEpoch) →
      ∀ p ∈ past ++ [{ before := s, request, reply, after := s' }], ∀ fire, p.reply = some fire →
        ∃ row, s'.owner = some row ∧ fire.authority.ownerEpoch ≤ row.ownerEpoch := by
    intro hlast p hp fire hreply
    rcases List.mem_append.mp hp with hp | hp
    . rcases hinv.epochs p hp fire hreply with ⟨row, hrow, hle⟩
      rcases hkeeps.epochs row hrow with ⟨row', hrow', hle'⟩
      exact ⟨row', hrow', hle.trans hle'⟩
    . rw [List.mem_singleton.mp hp] at hreply
      exact hlast fire hreply
  cases heffect with
  | same h =>
    have hinv' : Inv (past ++ [{ before := s, request, reply := none, after := s' }]) s' := by
      refine ⟨?_, ?_, ?_, ?_, hcalls, hepochs (by simp)⟩
      . rw [h.states]
        exact hinv.keys
      . rw [h.operations, h.runs]
        exact hinv.paired
      . rw [h.runs]
        exact hinv.nodup
      . rw [h.operations]
        exact hinv.scheduled
    refine ⟨⟨hinv'.exactlyOnce, Same.moves h rfl, by simp, ?_⟩, hinv'⟩
    intro cursor hcreates
    exact absurd hcreates (not_creates_of_runs h.runs cursor)
  | materializes h =>
    have hinv' : Inv (past ++ [{ before := s, request, reply := none, after := s' }]) s' := by
      refine ⟨h.keys hinv.keys, ?_, ?_, ?_, hcalls, hepochs (by simp)⟩
      . rw [h.operations, h.runs]
        exact hinv.paired
      . rw [h.runs]
        exact hinv.nodup
      . rw [h.operations]
        exact hinv.scheduled
    refine ⟨⟨hinv'.exactlyOnce, Materializes.moves h rfl, by simp, ?_⟩, hinv'⟩
    intro cursor hcreates
    exact absurd hcreates (not_creates_of_runs h.runs cursor)
  | @commits c candidate next fire committed hc h =>
    let e : Entry F := { before := s, request, reply := some committed, after := s' }
    have hheld : Held past e committed := Commits.held hinv hc h
    have hinv' : Inv (past ++ [e]) s' := by
      refine ⟨?_, ?_, ?_, ?_, hcalls, hepochs ?_⟩
      . rw [h.states]
        apply nodup_keys_update hinv.keys
        intro _ _
        rfl
      . rw [h.operations, h.runs, List.map_append, List.map_append, hinv.paired, List.map_singleton,
          List.map_singleton, h.operation_cursor]
      . rw [h.runs, List.map_append, List.map_singleton, List.nodup_append]
        refine ⟨hinv.nodup, List.nodup_singleton _, ?_⟩
        intro cursor hmem other hother heq
        rw [List.mem_singleton] at hother
        apply h.fresh hinv
        rwa [← hother, ← heq]
      . rw [h.operations, List.forall_mem_append, List.forall_mem_singleton]
        refine ⟨hinv.scheduled, ?_⟩
        rw [h.eq]
        rfl
      . intro fire' hfire
        cases hfire
        rcases hheld.current with ⟨row, hrow, hcarries⟩
        rcases hkeeps.epochs row hrow with ⟨row', hrow', hle⟩
        refine ⟨row', hrow', ?_⟩
        simp only [CronSchedulerOwner.carries, Bool.and_eq_true, decide_eq_true_eq] at hcarries
        rw [← hcarries.1.1.2]
        exact hle
    refine ⟨⟨hinv'.exactlyOnce, Commits.moves (e := e) h hinv rfl, ?_, ?_⟩, hinv'⟩
    . intro fire' hfire
      cases hfire
      exact hheld
    . intro cursor hcreates
      have hcursor := (Commits.creates_iff (e := e) h hinv cursor).mp hcreates
      exact ⟨committed, rfl, hcursor.symm⟩

/--
Schedulers with any leases, crashes and retries fire each cursor once, and each moves on with its run.
-/
theorem fired_run (lib : ScheduleLibrary F) (requests : List (ScheduleRequest F))
    : AtEach (Fired lib) (transcript (step lib) {} requests) := by
  apply @atEach_transcript _ _ _ (step lib) (fun _ _ => True) Inv (Fired lib) _ _ init_inv requests
  . intro _ _
    trivial
  . intro past s request h _
    exact h.step lib request

section Expired

def minuteLibrary : ScheduleLibrary Unit where
  parseFromRfc3339 _ := none
  toRfc3339 _ := "1970-01-01T00:01:00.000000Z"
  stored value := value.tdiv 1000 * 1000
  findNextOccurrence _ _ _ := none
  digest value :=
    let interval := (ScheduleConfig.get value "schedule_config").bind (ScheduleConfig.get · "interval_seconds")
    if interval.bind ScheduleConfig.asI64 = some 60 then
      "37028709f92618e7886c52fa1d0ed8a5f9167f0c2371c4d5550eada4c25a56bb"
    else
      "25c54a50e4c32587d63c657d804219826082e6538db48c6918bc2820a312d52e"
  newV5 name :=
    if name = "run:tenant:project:job:1970-01-01T00:01:00.000000Z" then "27b0e5c5-c234-581a-b8ee-b77effcf3e54"
    else "084f2e62-fa72-5f6c-b5f2-e3e864bbb8a0"
  sameJsonb a b :=
    (ScheduleConfig.get a "interval_seconds").bind ScheduleConfig.asI64 =
      (ScheduleConfig.get b "interval_seconds").bind ScheduleConfig.asI64

def everyJob (interval : Int) : CronJob Unit where
  id := "job"
  tenantId := "tenant"
  projectId := "project"
  revision := 1
  scheduleRevision := 1
  enabled := true
  scheduleType := "every"
  scheduleConfig := .dict [("interval_seconds", .int interval)]
  timezone := "UTC"
  staggerSeconds := 0
  maxRetries := 3
  createdBy := some "user"
  createdAt := 0

def reconcileJob (scheduleRevision : Int) : CronOperation :=
  .ofNew {
    id := "cron-reconcile:job:" ++ toString scheduleRevision, tenantId := "tenant", projectId := "project"
    jobId := "job", jobRevision := scheduleRevision, scheduleRevision := some scheduleRevision
    kind := .reconcileSchedule, runId := none, triggerType := none, scheduledFor := none, maxAttempts := 5
    nextAttemptAt := some 0, createdAt := 0 }

def minuteLease : CronSchedulerLease where
  scopeId := "global"
  ownerId := "scheduler"
  ownerEpoch := 1
  leaseToken := "global:1:6"
  leaseExpiresAt := 120 * Timestamp.second
  acquiredAt := 60 * Timestamp.second

def expiredRequests : List (ScheduleRequest Unit) :=
  [.owner (.delegate .rust 0), .createJob (everyJob 60), .reconcile (reconcileJob 1),
    .proceedReconcile 0 .ok, .proceedReconcile 0 .ok,
    .clock (60 * Timestamp.second), .owner (.tryAcquireGlobal "scheduler" 60 (60 * Timestamp.second)),
    .fireDue minuteLease "tenant" "project" 10, .fire 0 .ok, .fire 0 .ok,
    .clock (300 * Timestamp.second), .fire 0 .ok,
    .editJob "job" (everyJob 3600), .reconcile (reconcileJob 2), .proceedReconcile 1 .ok, .proceedReconcile 1 .ok]

def fireFact (e : Entry Unit) : Timestamp × Option (Timestamp × Cursor) :=
  (e.before.now, e.reply.map fun fire => (fire.authority.leaseExpiresAt, fire.run.cursor))

def moveFact (e : Entry Unit) : Option Cursor × Option Cursor × List CronJobRun × List CronJobRun :=
  (e.before.cursorOf "job", e.after.cursorOf "job", e.before.runs, e.after.runs)

/--
A fire is committed after its lease has expired, and a later schedule revision moves the cursor of the job
without a run.
-/
theorem expired_fired
    : (∃ e ∈ transcript (step minuteLibrary) {} expiredRequests, ∃ fire, e.reply = some fire ∧
        fire.authority.leaseExpiresAt ≤ e.before.now) ∧
      (∃ e ∈ transcript (step minuteLibrary) {} expiredRequests, ∃ cursor later,
        e.before.cursorOf "job" = some cursor ∧ e.after.cursorOf "job" = some later ∧
          cursor.scheduledFor < later.scheduledFor ∧ ¬ Creates e cursor) := by
  have hfire : ((transcript (step minuteLibrary) {} expiredRequests)[11]?.map fireFact).any
      (fun fact => fact.2.any (·.1 ≤ fact.1)) := by
    decide +kernel
  have hmove : ((transcript (step minuteLibrary) {} expiredRequests)[15]?.map moveFact).any
      (fun fact => fact.1.any (fun cursor => fact.2.1.any (cursor.scheduledFor < ·.scheduledFor)) &&
        fact.2.2.1 = fact.2.2.2) := by
    decide +kernel
  rw [Option.any_eq_true] at hfire hmove
  rcases hfire with ⟨fact, hfact, hexpired⟩
  rcases hmove with ⟨fact', hfact', hmoved⟩
  rcases Option.map_eq_some_iff.mp hfact with ⟨e, he, rfl⟩
  rcases Option.map_eq_some_iff.mp hfact' with ⟨e', he', rfl⟩
  refine ⟨⟨e, List.mem_of_getElem? he, ?_⟩, ⟨e', List.mem_of_getElem? he', ?_⟩⟩
  . rw [Option.any_eq_true] at hexpired
    rcases hexpired with ⟨committed, hcommitted, hle⟩
    rcases Option.map_eq_some_iff.mp hcommitted with ⟨fire, hfire, rfl⟩
    exact ⟨fire, hfire, of_decide_eq_true hle⟩
  . rw [Bool.and_eq_true, decide_eq_true_eq, Option.any_eq_true] at hmoved
    rcases hmoved with ⟨⟨cursor, hcursor, hlater⟩, hruns⟩
    rw [Option.any_eq_true] at hlater
    rcases hlater with ⟨later, hlater, hlt⟩
    exact ⟨cursor, later, hcursor, hlater, of_decide_eq_true hlt, not_creates_of_runs hruns.symm cursor⟩

end Expired

end Run

end Invariant

end ScheduleStore

end Cron
end MemStack
