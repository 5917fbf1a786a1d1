import MemStack.Cron.ControlCycle
import MemStack.Util.Table

/-!
This module contains the admission of reconciliations (`cron_control_repo.rs`), and just when it makes progress.
No other transaction holds a lock.
-/

namespace MemStack
namespace Cron

variable {F : Type}

structure CronReconcileAdmission where
  operationId : String
  tenantId : String
  projectId : String
  jobId : String
  scheduleRevision : Option Int
  deriving DecidableEq, Repr

inductive CronControlRepositoryError where
  | invalidAuthority
  | invalidScope
  | storage
  deriving DecidableEq, Repr

def CronControlScope.isValid (scope : CronControlScope) : Bool :=
  !(Text.trim scope.tenantId = "" || Text.trim scope.projectId = "")

namespace CronJob

variable (job : CronJob F)

def reconcileOperationId : String :=
  "cron-reconcile:" ++ job.id ++ ":" ++ toString job.scheduleRevision

def reconcileOperation (observedAt : Timestamp) : CronOperation :=
  .ofNew {
    id := job.reconcileOperationId
    tenantId := job.tenantId
    projectId := job.projectId
    jobId := job.id
    jobRevision := job.revision
    scheduleRevision := some job.scheduleRevision
    kind := .reconcileSchedule
    runId := none
    triggerType := none
    scheduledFor := none
    maxAttempts := 5
    nextAttemptAt := some observedAt
    createdAt := observedAt }

end CronJob

namespace CronOperation

-- The key `(job_id, operation_kind, schedule_revision)` of the reconciliations.
def sameReconcile (o other : CronOperation) : Bool :=
  o.kind = .reconcileSchedule && other.kind = .reconcileSchedule && o.jobId = other.jobId &&
    o.scheduleRevision.isSome && o.scheduleRevision = other.scheduleRevision

def admission (o : CronOperation) : CronReconcileAdmission where
  operationId := o.id
  tenantId := o.tenantId
  projectId := o.projectId
  jobId := o.jobId
  scheduleRevision := o.scheduleRevision

def reconciles (o : CronOperation) (job : CronJob F) : Prop :=
  o.kind = .reconcileSchedule ∧ o.jobId = job.id ∧ o.scheduleRevision = some job.scheduleRevision

end CronOperation

-- The arguments of `admit_reconcile_operations`.
structure AdmitCall where
  authority : CronSchedulerLease
  scope : CronControlScope
  limit : Int
  observedAt : Timestamp

namespace ScheduleStore

variable (s : ScheduleStore F) (call : AdmitCall)

def isAhead (job : CronJob F) : Bool :=
  job.scheduleRevision > 0 &&
    match s.states.find? (·.jobId = job.id) with
    | none => true
    | some state => state.scheduleRevision < job.scheduleRevision

def isCandidate (scope : CronControlScope) (job : CronJob F) : Bool :=
  job.tenantId = scope.tenantId && job.projectId = scope.projectId && s.isAhead job

def candidates (scope : CronControlScope) (limit : Int) : List (CronJob F) :=
  Table.select (s.isCandidate scope) (fun a b => a.id ≤ b.id) (min (max limit 1) 1000).toNat s.jobs

def insertOperations : Option (List CronOperation) :=
  Table.insertIgnore CronOperation.sameReconcile CronOperation.conflicts s.operations
    ((s.candidates call.scope call.limit).map (·.reconcileOperation call.observedAt))

def admitReconcileOperations : ScheduleStore F × Except CronControlRepositoryError (List CronReconcileAdmission) :=
  if call.limit ≤ 0 then (s, .ok [])
  else if !call.authority.isStructurallyValid then (s, .error .invalidAuthority)
  else if !call.scope.isValid then (s, .error .invalidScope)
  else if !s.owner.any (·.isCurrent call.authority call.observedAt) then (s, .ok [])
  else
    match s.insertOperations call with
    | none => (s, .error .storage)
    | some inserted =>
      ({ s with operations := s.operations ++ inserted }, .ok (inserted.map (·.admission)))

def admitRepeatedly : Nat → ScheduleStore F
  | 0 => s
  | n + 1 => ((admitRepeatedly n).admitReconcileOperations call).1

structure Needs (job : CronJob F) : Prop where
  stored : job ∈ s.jobs
  candidate : s.isCandidate call.scope job
  missing : ∀ o ∈ s.operations, ¬o.reconciles job

def Admits : Prop :=
  (∃ job, s.Needs call job) →
    ∃ admissions, (s.admitReconcileOperations call).2 = .ok admissions ∧ admissions ≠ []

def Covers : Prop :=
  ∃ n, ∀ job, ¬(s.admitRepeatedly call n).Needs call job

structure Granted : Prop where
  limit : 0 < call.limit
  authority : call.authority.isStructurallyValid
  scope : call.scope.isValid
  current : s.owner.any (·.isCurrent call.authority call.observedAt)
  keys : (s.jobs.map (·.id)).Nodup

structure Reached (job : CronJob F) : Prop where
  first : job ∈ s.candidates call.scope call.limit
  free : ∀ o ∈ s.operations, o.id ≠ job.reconcileOperationId

end ScheduleStore

section Key

theorem takeWhile_reverse {front back : List Char} {c : Char} (hc : c.isDigit = false) (hback : back.all Char.isDigit)
    : (front ++ c :: back).reverse.takeWhile Char.isDigit = back.reverse := by
  rw [List.reverse_append, List.reverse_cons, List.append_assoc, List.singleton_append]
  rw [List.takeWhile_append_of_pos]
  . rw [List.takeWhile_cons_of_neg (by simp [hc]), List.append_nil]
  . intro d hd
    rw [List.mem_reverse] at hd
    exact List.all_eq_true.mp hback d hd

theorem append_toDigits_inj {front front' : List Char} {c : Char} {n m : Nat} (hc : c.isDigit = false)
    (h : front ++ c :: Nat.toDigits 10 n = front' ++ c :: Nat.toDigits 10 m)
    : front = front' ∧ n = m := by
  have hdigits : ∀ k, (Nat.toDigits 10 k).all Char.isDigit := by
    intro k
    apply List.all_eq_true.mpr
    intro d hd
    exact Nat.isDigit_of_mem_toDigits (by decide) (by decide) hd
  have htake := congrArg (fun cs => cs.reverse.takeWhile Char.isDigit) h
  rw [takeWhile_reverse hc (hdigits n), takeWhile_reverse hc (hdigits m), List.reverse_inj] at htake
  rw [htake] at h
  have hread := congrArg (Nat.ofDigitChars 10 · 0) htake
  exact ⟨List.append_cancel_right h, by simpa only [Nat.ofDigitChars_ten_toDigits] using hread⟩

theorem CronJob.reconcileOperationId_inj {job other : CronJob F} (hjob : 0 < job.scheduleRevision)
    (hother : 0 < other.scheduleRevision) (h : job.reconcileOperationId = other.reconcileOperationId)
    : job.id = other.id ∧ job.scheduleRevision = other.scheduleRevision := by
  unfold CronJob.reconcileOperationId at h
  have hlist := congrArg String.toList h
  rcases Int.eq_ofNat_of_zero_le hjob.le with ⟨n, hn⟩
  rcases Int.eq_ofNat_of_zero_le hother.le with ⟨m, hm⟩
  have htext : ∀ k : Nat, toString (k : Int) = toString k := fun k => rfl
  rw [hn, hm, htext, htext] at hlist
  simp only [String.toList_append, Nat.toString_eq_ofList_toDigits, String.toList_ofList, List.append_assoc,
    List.append_cancel_left_eq] at hlist
  have hboth := @append_toDigits_inj _ _ ':' n m (by decide) hlist
  refine ⟨String.toList_inj.mp hboth.1, ?_⟩
  rw [hn, hm, hboth.2]

variable {job other : CronJob F} {o : CronOperation} {now : Timestamp}

theorem sameReconcile_iff : (job.reconcileOperation now).sameReconcile o = true ↔ o.reconciles job := by
  unfold CronOperation.sameReconcile CronOperation.reconciles CronJob.reconcileOperation CronOperation.ofNew
  simp only [decide_true, Bool.true_and, Option.isSome_some, Bool.and_true, Bool.and_eq_true, decide_eq_true_eq,
    and_assoc]
  rw [@eq_comm _ job.id, @eq_comm _ (some job.scheduleRevision)]

theorem conflicts_reconcileOperation
    : (job.reconcileOperation now).conflicts o
        = (decide (job.reconcileOperationId = o.id) || (job.reconcileOperation now).sameReconcile o) := by
  simp [CronOperation.conflicts, CronOperation.sameReconcile, CronJob.reconcileOperation, CronOperation.ofNew]

theorem reconciles_reconcileOperation
    : (other.reconcileOperation now).reconciles job ↔
        other.id = job.id ∧ other.scheduleRevision = job.scheduleRevision := by
  simp [CronOperation.reconciles, CronJob.reconcileOperation, CronOperation.ofNew]

theorem conflicts_congr (hid : other.id = job.id) (hrevision : other.scheduleRevision = job.scheduleRevision)
    : (other.reconcileOperation now).conflicts = (job.reconcileOperation now).conflicts := by
  funext o
  rw [conflicts_reconcileOperation, conflicts_reconcileOperation]
  unfold CronOperation.sameReconcile CronJob.reconcileOperationId CronJob.reconcileOperation CronOperation.ofNew
  rw [hid, hrevision]

end Key

namespace ScheduleStore

variable {s : ScheduleStore F} {call : AdmitCall} {job : CronJob F} {inserted : List CronOperation}

section Insert

theorem candidate_of_mem (h : job ∈ s.candidates call.scope call.limit)
    : job ∈ s.jobs ∧ s.isCandidate call.scope job = true :=
  Table.mem_of_mem_select h

theorem pos_of_candidate (h : s.isCandidate call.scope job = true) : 0 < job.scheduleRevision := by
  unfold isCandidate isAhead at h
  simp only [Bool.and_eq_true, decide_eq_true_eq] at h
  exact h.2.1

theorem any_sameReconcile_iff (now : Timestamp)
    : s.operations.any (job.reconcileOperation now).sameReconcile = false ↔ ∀ o ∈ s.operations, ¬o.reconciles job := by
  rw [List.any_eq_false]
  simp only [sameReconcile_iff]

theorem any_conflicts_iff (now : Timestamp) (hmissing : ∀ o ∈ s.operations, ¬o.reconciles job)
    : s.operations.any (job.reconcileOperation now).conflicts = false ↔
        ∀ o ∈ s.operations, o.id ≠ job.reconcileOperationId := by
  rw [List.any_eq_false]
  apply forall₂_congr
  intro o ho
  have hother : (job.reconcileOperation now).sameReconcile o = false := by
    rw [← Bool.not_eq_true, sameReconcile_iff]
    exact hmissing o ho
  rw [conflicts_reconcileOperation, hother, Bool.or_false, decide_eq_true_eq, eq_comm]

theorem needs_of_missing (h : job ∈ s.candidates call.scope call.limit)
    (hmissing : ∀ o ∈ s.operations, ¬o.reconciles job)
    : s.Needs call job where
  stored := (candidate_of_mem h).1
  candidate := (candidate_of_mem h).2
  missing := hmissing

theorem insertOperations_isSome
    (h : ∀ job ∈ s.candidates call.scope call.limit, s.Needs call job → s.Reached call job)
    : (s.insertOperations call).isSome := by
  apply Table.insertIgnore_isSome
  . rw [List.forall_mem_map]
    intro job hjob hmissing
    rw [any_sameReconcile_iff] at hmissing
    rw [any_conflicts_iff _ hmissing]
    exact (h job hjob (needs_of_missing hjob hmissing)).free
  . rw [List.forall_mem_map]
    intro job hjob
    rw [List.forall_mem_map]
    intro other hother hconflict
    rw [conflicts_reconcileOperation, Bool.or_eq_true, decide_eq_true_eq] at hconflict
    cases hconflict with
    | inl hid =>
      have hpos := pos_of_candidate (candidate_of_mem hjob).2
      have hkey := CronJob.reconcileOperationId_inj hpos (pos_of_candidate (candidate_of_mem hother).2) hid
      rw [sameReconcile_iff, reconciles_reconcileOperation]
      exact ⟨hkey.1.symm, hkey.2.symm⟩
    | inr hsame => exact hsame

theorem insertOperations_eq_none (h : s.Needs call job) (hfirst : job ∈ s.candidates call.scope call.limit)
    (htaken : ¬∀ o ∈ s.operations, o.id ≠ job.reconcileOperationId)
    : s.insertOperations call = none := by
  have hmem : job.reconcileOperation call.observedAt
      ∈ (s.candidates call.scope call.limit).map (·.reconcileOperation call.observedAt) :=
    List.mem_map_of_mem hfirst
  apply Table.insertIgnore_eq_none hmem ((any_sameReconcile_iff _).mpr h.missing)
  . rw [← Bool.not_eq_false, any_conflicts_iff _ h.missing]
    exact htaken
  . rw [List.forall_mem_map]
    intro other _ hsame
    rw [sameReconcile_iff, reconciles_reconcileOperation] at hsame
    exact conflicts_congr hsame.1 hsame.2

theorem needs_of_inserted (h : s.insertOperations call = some inserted)
    : ∀ o ∈ inserted, ∃ job ∈ s.candidates call.scope call.limit,
        o = job.reconcileOperation call.observedAt ∧ s.Needs call job := by
  intro o ho
  rcases Table.mem_of_insertIgnore h o ho with ⟨hnew, hmissing⟩
  rw [List.mem_map] at hnew
  rcases hnew with ⟨job, hjob, rfl⟩
  exact ⟨job, hjob, rfl, needs_of_missing hjob ((any_sameReconcile_iff _).mp hmissing)⟩

theorem reconciled_of_inserted (h : s.insertOperations call = some inserted)
    (hfirst : job ∈ s.candidates call.scope call.limit)
    : ∃ o ∈ s.operations ++ inserted, o.reconciles job := by
  have hrefl : ∀ row ∈ (s.candidates call.scope call.limit).map (·.reconcileOperation call.observedAt),
      row.sameReconcile row = true := by
    rw [List.forall_mem_map]
    intro other _
    rw [sameReconcile_iff, reconciles_reconcileOperation]
    exact ⟨rfl, rfl⟩
  have hany := Table.target_of_insertIgnore hrefl h _ (List.mem_map_of_mem hfirst)
  rw [List.any_eq_true] at hany
  rcases hany with ⟨o, ho, hsame⟩
  exact ⟨o, ho, sameReconcile_iff.mp hsame⟩

theorem inserted_ne_nil_iff (h : s.insertOperations call = some inserted)
    : inserted ≠ [] ↔ ∃ job ∈ s.candidates call.scope call.limit, s.Needs call job := by
  constructor
  . intro hne
    rcases List.exists_mem_of_ne_nil inserted hne with ⟨o, ho⟩
    rcases needs_of_inserted h o ho with ⟨job, hjob, _, hneeds⟩
    exact ⟨job, hjob, hneeds⟩
  . rintro ⟨job, hjob, hneeds⟩ hnil
    rcases reconciled_of_inserted h hjob with ⟨o, ho, hreconciles⟩
    rw [hnil, List.append_nil] at ho
    exact hneeds.missing o ho hreconciles

end Insert

section Admit

theorem admit_of_none (h : s.Granted call) (hinsert : s.insertOperations call = none)
    : s.admitReconcileOperations call = (s, .error .storage) := by
  unfold admitReconcileOperations
  rw [if_neg (by simpa using h.limit), if_neg (by simp [h.authority]), if_neg (by simp [h.scope]),
    if_neg (by simp [h.current]), hinsert]

theorem admit_of_some (h : s.Granted call) (hinsert : s.insertOperations call = some inserted)
    : s.admitReconcileOperations call
        = ({ s with operations := s.operations ++ inserted }, .ok (inserted.map (·.admission))) := by
  unfold admitReconcileOperations
  rw [if_neg (by simpa using h.limit), if_neg (by simp [h.authority]), if_neg (by simp [h.scope]),
    if_neg (by simp [h.current]), hinsert]

theorem granted_admission (h : s.Granted call) : (s.admitReconcileOperations call).1.Granted call := by
  cases hinsert : s.insertOperations call with
  | none =>
    rw [admit_of_none h hinsert]
    exact h
  | some inserted =>
    rw [admit_of_some h hinsert]
    exact ⟨h.limit, h.authority, h.scope, h.current, h.keys⟩

theorem admits_iff (h : s.Granted call)
    : s.Admits call ↔
        ((∃ job, s.Needs call job) →
          (∃ job ∈ s.candidates call.scope call.limit, s.Needs call job) ∧
            ∀ job ∈ s.candidates call.scope call.limit, s.Needs call job → s.Reached call job) := by
  apply imp_congr_right
  intro _
  by_cases hfree : ∀ job ∈ s.candidates call.scope call.limit, s.Needs call job → s.Reached call job
  . rcases Option.isSome_iff_exists.mp (insertOperations_isSome hfree) with ⟨inserted, hinsert⟩
    rw [admit_of_some h hinsert, and_iff_left hfree, ← inserted_ne_nil_iff hinsert]
    simp
  . have hnone : s.insertOperations call = none := by
      push Not at hfree
      rcases hfree with ⟨job, hjob, hneeds, hreached⟩
      apply insertOperations_eq_none hneeds hjob
      intro hids
      exact hreached ⟨hjob, hids⟩
    rw [admit_of_none h hnone]
    simp [hfree]

theorem unreached_admission (h : s.Granted call) (hneeds : s.Needs call job) (hreached : ¬s.Reached call job)
    : (s.admitReconcileOperations call).1.Needs call job ∧ ¬(s.admitReconcileOperations call).1.Reached call job := by
  cases hinsert : s.insertOperations call with
  | none =>
    rw [admit_of_none h hinsert]
    exact ⟨hneeds, hreached⟩
  | some inserted =>
    rw [admit_of_some h hinsert]
    have hlate : job ∉ s.candidates call.scope call.limit := by
      intro hfirst
      by_cases htaken : ∀ o ∈ s.operations, o.id ≠ job.reconcileOperationId
      . exact hreached ⟨hfirst, htaken⟩
      . rw [insertOperations_eq_none hneeds hfirst htaken] at hinsert
        cases hinsert
    refine ⟨⟨hneeds.stored, hneeds.candidate, ?_⟩, fun hlater => hlate hlater.first⟩
    intro o ho
    rw [List.mem_append] at ho
    cases ho with
    | inl hold => exact hneeds.missing o hold
    | inr hnew =>
      rcases needs_of_inserted hinsert o hnew with ⟨other, hother, rfl, _⟩
      rw [reconciles_reconcileOperation]
      rintro ⟨hid, _⟩
      rw [Table.eq_of_key h.keys (candidate_of_mem hother).1 hneeds.stored hid] at hother
      exact hlate hother

theorem unreached_admitRepeatedly (h : s.Granted call) (hneeds : s.Needs call job) (hreached : ¬s.Reached call job)
    (n : Nat)
    : (s.admitRepeatedly call n).Granted call ∧ (s.admitRepeatedly call n).Needs call job ∧
        ¬(s.admitRepeatedly call n).Reached call job := by
  induction n with
  | zero => exact ⟨h, hneeds, hreached⟩
  | succ n ih => exact ⟨granted_admission ih.1, unreached_admission ih.1 ih.2.1 ih.2.2⟩

theorem covers_iff (h : s.Granted call) : s.Covers call ↔ ∀ job, s.Needs call job → s.Reached call job := by
  constructor
  . rintro ⟨n, hcovered⟩ job hneeds
    by_contra hreached
    exact hcovered job (unreached_admitRepeatedly h hneeds hreached n).2.1
  . intro hreached
    have hsome := @insertOperations_isSome _ s call (fun job _ hneeds => hreached job hneeds)
    rcases Option.isSome_iff_exists.mp hsome with ⟨inserted, hinsert⟩
    refine ⟨1, fun job hneeds => ?_⟩
    have hlater : ({ s with operations := s.operations ++ inserted } : ScheduleStore F).Needs call job := by
      have hstep : (s.admitReconcileOperations call).1.Needs call job := hneeds
      rwa [admit_of_some h hinsert] at hstep
    have hbefore : s.Needs call job :=
      ⟨hlater.stored, hlater.candidate, fun o ho => hlater.missing o (List.mem_append_left _ ho)⟩
    rcases reconciled_of_inserted hinsert (hreached job hbefore).first with ⟨o, ho, hreconciles⟩
    exact hlater.missing o ho hreconciles

end Admit

/--
The candidates are ordered and limited before those that have a reconciliation are dropped.
-/
theorem admission_progress_iff (h : s.Granted call)
    : (s.Admits call ↔
        ((∃ job, s.Needs call job) →
          (∃ job ∈ s.candidates call.scope call.limit, s.Needs call job) ∧
            ∀ job ∈ s.candidates call.scope call.limit, s.Needs call job → s.Reached call job)) ∧
      (s.Covers call ↔ ∀ job, s.Needs call job → s.Reached call job) :=
  ⟨admits_iff h, covers_iff h⟩

def behindJob (id : String) : CronJob Unit where
  id := id
  tenantId := "tenant"
  projectId := "project"
  revision := 1
  scheduleRevision := 1
  enabled := true
  scheduleType := "every"
  scheduleConfig := .dict []
  timezone := "UTC"
  staggerSeconds := 0
  maxRetries := 1
  createdBy := none
  createdAt := 0

def givenUp : ScheduleStore Unit where
  jobs := [behindJob "a", behindJob "b"]
  owner := some {
    ownerKind := .rust
    ownerId := some "scheduler"
    ownerEpoch := 1
    leaseToken := some "global:1:1"
    leaseExpiresAt := some (60 * Timestamp.second)
    acquiredAt := some 0
    updatedAt := 0 }
  operations := [{ (behindJob "a").reconcileOperation 0 with status := .deadLetter, attemptCount := 5 }]

def admitOne : AdmitCall where
  authority := {
    scopeId := "global"
    ownerId := "scheduler"
    ownerEpoch := 1
    leaseToken := "global:1:1"
    leaseExpiresAt := 60 * Timestamp.second
    acquiredAt := 0 }
  scope := { tenantId := "tenant", projectId := "project" }
  limit := 1
  observedAt := 1

theorem givenUp_granted : givenUp.Granted admitOne where
  limit := by decide
  authority := by decide +kernel
  scope := by decide +kernel
  current := by decide +kernel
  keys := by decide

theorem admission_progress_givenUp
    : (givenUp.Admits admitOne ↔
        ((∃ job, givenUp.Needs admitOne job) →
          (∃ job ∈ givenUp.candidates admitOne.scope admitOne.limit, givenUp.Needs admitOne job) ∧
            ∀ job ∈ givenUp.candidates admitOne.scope admitOne.limit, givenUp.Needs admitOne job →
              givenUp.Reached admitOne job)) ∧
      (givenUp.Covers admitOne ↔ ∀ job, givenUp.Needs admitOne job → givenUp.Reached admitOne job) :=
  admission_progress_iff givenUp_granted

theorem second_needs : givenUp.Needs admitOne (behindJob "b") where
  stored := List.mem_cons_of_mem _ List.mem_cons_self
  candidate := by decide +kernel
  missing := by
    rw [givenUp, List.forall_mem_singleton]
    rintro ⟨_, hid, _⟩
    revert hid
    decide

/--
The first job stays a candidate and takes the only place, so the second one never gets its reconciliation.
-/
theorem first_job_blocks : ¬givenUp.Admits admitOne ∧ ¬givenUp.Covers admitOne := by
  have hlate : behindJob "b" ∉ givenUp.candidates admitOne.scope admitOne.limit := by
    intro hfirst
    have hid := List.mem_map_of_mem (f := (·.id)) hfirst
    revert hid
    decide +kernel
  constructor
  . intro hadmits
    rcases hadmits ⟨_, second_needs⟩ with ⟨admissions, hadmissions, hne⟩
    have hnone : (givenUp.admitReconcileOperations admitOne).2 = .ok [] := by decide +kernel
    rw [hnone] at hadmissions
    cases hadmissions
    exact hne rfl
  . intro hcovers
    rw [covers_iff givenUp_granted] at hcovers
    exact hlate (hcovers _ second_needs).first

end ScheduleStore

end Cron
end MemStack
