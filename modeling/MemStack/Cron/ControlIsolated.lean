import MemStack.Cron.ControlCycle
import MemStack.Cron.ScheduleFired

/-!
This module contains the verification of when a failing candidate or scope blocks the others of a control cycle.
-/

namespace MemStack
namespace Cron

variable {F : Type}

section Fire

variable {lib : ScheduleLibrary F} {authority : CronSchedulerLease} {scope : CronOperationScope}
  {stores : ScopeStores F} {candidate : CronDueSchedule F} {candidates : List (CronDueSchedule F)}
  {summary : CronScheduleFireSummary}

def valid (lib : ScheduleLibrary F) (authority : CronSchedulerLease) (scope : CronOperationScope)
    (stores : ScopeStores F) (candidate : CronDueSchedule F) : Bool :=
  (check lib authority scope stores candidate).isOk

theorem fireLoop_invalid (h : valid lib authority scope stores candidate = false)
    : ∃ e, fireLoop lib authority scope stores summary (candidate :: candidates) = (.error e, []) := by
  unfold valid at h
  rw [fireLoop]
  cases hcheck : check lib authority scope stores candidate with
  | error e => exact ⟨e, rfl⟩
  | ok _ =>
    rw [hcheck] at h
    cases h

theorem check_of_valid (h : valid lib authority scope stores candidate)
    : check lib authority scope stores candidate = .ok () := by
  unfold valid at h
  cases hcheck : check lib authority scope stores candidate with
  | error e =>
    rw [hcheck] at h
    cases h
  | ok _ => rfl

theorem fireLoop_failed (h : valid lib authority scope stores candidate)
    (htransaction : stores.transaction candidate = .failed)
    : ∃ e, fireLoop lib authority scope stores summary (candidate :: candidates) = (.error e, [candidate]) := by
  rw [fireLoop, check_of_valid h, htransaction]
  exact ⟨_, rfl⟩

theorem fireLoop_begun (h : valid lib authority scope stores candidate)
    (htransaction : stores.transaction candidate ≠ .failed)
    : ∃ summary', fireLoop lib authority scope stores summary (candidate :: candidates)
        = ((fireLoop lib authority scope stores summary' candidates).1,
            candidate :: (fireLoop lib authority scope stores summary' candidates).2) := by
  rw [fireLoop, check_of_valid h]
  cases hcase : stores.transaction candidate with
  | failed => exact absurd hcase htransaction
  | committed => exact ⟨_, rfl⟩
  | lost => exact ⟨_, rfl⟩

theorem begun_of_summary (summary summary' : CronScheduleFireSummary)
    : (fireLoop lib authority scope stores summary candidates).2
        = (fireLoop lib authority scope stores summary' candidates).2 := by
  induction candidates generalizing summary summary' with
  | nil => rfl
  | cons candidate candidates ih =>
    cases hvalid : valid lib authority scope stores candidate with
    | false =>
      rcases fireLoop_invalid hvalid with ⟨_, heq⟩
      rcases fireLoop_invalid hvalid with ⟨_, heq'⟩
      rw [heq, heq']
    | true =>
      by_cases htransaction : stores.transaction candidate = .failed
      . rcases fireLoop_failed hvalid htransaction with ⟨_, heq⟩
        rcases fireLoop_failed hvalid htransaction with ⟨_, heq'⟩
        rw [heq, heq']
      . rcases fireLoop_begun hvalid htransaction with ⟨next, heq⟩
        rcases fireLoop_begun hvalid htransaction with ⟨next', heq'⟩
        rw [heq, heq', ih next next']

theorem fireLoop_isOk
    : (fireLoop lib authority scope stores summary candidates).1.isOk ↔
        ∀ candidate ∈ candidates,
          valid lib authority scope stores candidate ∧ stores.transaction candidate ≠ .failed := by
  induction candidates generalizing summary with
  | nil => simp [fireLoop, Except.isOk, Except.toBool]
  | cons candidate candidates ih =>
    rw [List.forall_mem_cons]
    cases hvalid : valid lib authority scope stores candidate with
    | false =>
      rcases fireLoop_invalid hvalid with ⟨_, heq⟩
      rw [heq]
      simp [Except.isOk, Except.toBool]
    | true =>
      by_cases htransaction : stores.transaction candidate = .failed
      . rcases fireLoop_failed hvalid htransaction with ⟨_, heq⟩
        rw [heq]
        simp [Except.isOk, Except.toBool, htransaction]
      . rcases fireLoop_begun hvalid htransaction with ⟨next, heq⟩
        rw [heq, ih]
        simp [htransaction]

end Fire

namespace ControlStep

variable (lib : ScheduleLibrary F) (step : ControlStep F)

def valid (candidate : CronDueSchedule F) : Bool :=
  Cron.valid lib step.authority step.scope.operationScope step.stores candidate

def FiresValid (candidates : List (CronDueSchedule F)) : Prop :=
  (step.fireDue lib candidates).2 = (step.fireDue lib (candidates.filter (step.valid lib))).2

def ValidFirst (candidates : List (CronDueSchedule F)) : Prop :=
  ∀ before candidate after, candidates = before ++ candidate :: after → step.valid lib candidate = false →
    (∀ other ∈ before, step.valid lib other → step.stores.transaction other ≠ .failed) →
    ∀ other ∈ after, step.valid lib other = false

variable {lib step} {candidate : CronDueSchedule F} {candidates : List (CronDueSchedule F)}

theorem validFirst_invalid (h : step.valid lib candidate = false)
    : step.ValidFirst lib (candidate :: candidates) ↔ ∀ other ∈ candidates, step.valid lib other = false := by
  constructor
  . intro hfirst
    apply hfirst [] candidate candidates rfl h
    simp
  . intro hnone before other after hsplit _ _ later hlater
    apply hnone
    cases before with
    | nil =>
      cases hsplit
      exact hlater
    | cons first before =>
      cases hsplit
      exact List.mem_append_right _ (List.mem_cons_of_mem _ hlater)

theorem validFirst_failed (h : step.valid lib candidate) (htransaction : step.stores.transaction candidate = .failed)
    : step.ValidFirst lib (candidate :: candidates) := by
  intro before other after hsplit hother hbefore
  cases before with
  | nil =>
    cases hsplit
    rw [h] at hother
    cases hother
  | cons first before =>
    cases hsplit
    exact absurd htransaction (hbefore candidate List.mem_cons_self h)

theorem validFirst_begun (h : step.valid lib candidate) (htransaction : step.stores.transaction candidate ≠ .failed)
    : step.ValidFirst lib (candidate :: candidates) ↔ step.ValidFirst lib candidates := by
  constructor
  . intro hfirst before other after hsplit hother hbefore
    apply hfirst (candidate :: before) other after (by rw [hsplit]; rfl) hother
    rw [List.forall_mem_cons]
    exact ⟨fun _ => htransaction, hbefore⟩
  . intro hfirst before other after hsplit hother hbefore
    cases before with
    | nil =>
      cases hsplit
      rw [h] at hother
      cases hother
    | cons first before =>
      cases hsplit
      apply hfirst before other after rfl hother
      intro earlier hearlier
      exact hbefore earlier (List.mem_cons_of_mem _ hearlier)

theorem begun_cons (h : step.valid lib candidate) (htransaction : step.stores.transaction candidate ≠ .failed)
    (candidates : List (CronDueSchedule F))
    : (step.fireDue lib (candidate :: candidates)).2 = candidate :: (step.fireDue lib candidates).2 := by
  unfold fireDue
  rcases fireLoop_begun h htransaction with ⟨_, heq⟩
  rw [heq]
  exact congrArg (candidate :: ·) (begun_of_summary _ _)

theorem begun_failed (h : step.valid lib candidate) (htransaction : step.stores.transaction candidate = .failed)
    (candidates : List (CronDueSchedule F))
    : (step.fireDue lib (candidate :: candidates)).2 = [candidate] := by
  unfold fireDue
  rcases fireLoop_failed h htransaction with ⟨_, heq⟩
  rw [heq]

theorem begun_invalid (h : step.valid lib candidate = false) (candidates : List (CronDueSchedule F))
    : (step.fireDue lib (candidate :: candidates)).2 = [] := by
  unfold fireDue
  rcases fireLoop_invalid h with ⟨_, heq⟩
  rw [heq]

theorem firesValid_iff (candidates : List (CronDueSchedule F))
    : step.FiresValid lib candidates ↔ step.ValidFirst lib candidates := by
  induction candidates with
  | nil =>
    apply iff_of_true rfl
    intro before candidate after hsplit
    simp at hsplit
  | cons candidate candidates ih =>
    unfold FiresValid
    cases hvalid : step.valid lib candidate with
    | false =>
      rw [validFirst_invalid hvalid, List.filter_cons_of_neg (by simp [hvalid])]
      rw [begun_invalid hvalid]
      constructor
      . intro hbegun other hother
        by_contra hvalid'
        rw [Bool.not_eq_false] at hvalid'
        have hmem := List.mem_filter.mpr ⟨hother, hvalid'⟩
        cases hfilter : candidates.filter (step.valid lib) with
        | nil =>
          rw [hfilter] at hmem
          cases hmem
        | cons first rest =>
          -- The transaction of the first valid candidate is begun.
          have hfirst : step.valid lib first := (List.mem_filter.mp (hfilter ▸ List.mem_cons_self)).2
          rw [hfilter] at hbegun
          by_cases htransaction : step.stores.transaction first = .failed
          . rw [begun_failed hfirst htransaction] at hbegun
            cases hbegun
          . rw [begun_cons hfirst htransaction] at hbegun
            cases hbegun
      . intro hnone'
        rw [List.filter_eq_nil_iff.mpr]
        . rfl
        . intro other hother
          simp [hnone' other hother]
    | true =>
      rw [List.filter_cons_of_pos hvalid]
      by_cases htransaction : step.stores.transaction candidate = .failed
      . apply iff_of_true _ (validFirst_failed hvalid htransaction)
        rw [begun_failed hvalid htransaction, begun_failed hvalid htransaction]
      . rw [begun_cons hvalid htransaction, begun_cons hvalid htransaction, validFirst_begun hvalid htransaction,
          List.cons_inj_right]
        exact ih

structure Sound (lib : ScheduleLibrary F) (step : ControlStep F) : Prop where
  admitted : step.stores.admitted.isOk
  before : step.stores.before.isOk
  after : step.stores.after.isOk
  scope : Text.trim step.scope.tenantId ≠ "" ∧ Text.trim step.scope.projectId ≠ ""
  authority : step.authority.isStructurallyValid ∧ step.stores.observedAt < step.authority.leaseExpiresAt
  isCurrent : step.stores.isCurrent = .ok true
  due : ∃ candidates, step.stores.due = .ok candidates ∧
    ∀ candidate ∈ candidates, step.valid lib candidate ∧ step.stores.transaction candidate ≠ .failed

theorem isOk_iff {ε α : Type} {x : Except ε α} : x.isOk ↔ ∃ a, x = .ok a := by
  cases x with
  | error e => simp [Except.isOk, Except.toBool]
  | ok a => simp [Except.isOk, Except.toBool]

theorem bind_eq_ok {ε α β : Type} {x : Except ε α} {f : α → Except ε β} {b : β}
    : x >>= f = .ok b ↔ ∃ a, x = .ok a ∧ f a = .ok b := by
  cases x with
  | error e => simp [bind, Except.bind]
  | ok a => simp [bind, Except.bind]

theorem dueCandidates_eq_ok {candidates : List (CronDueSchedule F)}
    : dueCandidates step.authority step.stores step.scope = .ok candidates ↔
        (Text.trim step.scope.tenantId ≠ "" ∧ Text.trim step.scope.projectId ≠ "") ∧
        (step.authority.isStructurallyValid ∧ step.stores.observedAt < step.authority.leaseExpiresAt) ∧
        step.stores.isCurrent = .ok true ∧ step.stores.due = .ok candidates := by
  have hscope : (∃ scope, validatedScope step.scope.tenantId step.scope.projectId = .ok scope) ↔
      Text.trim step.scope.tenantId ≠ "" ∧ Text.trim step.scope.projectId ≠ "" := by
    unfold validatedScope
    split
    . next h => simpa [or_iff_not_imp_left] using h
    . next h => simpa using h
  unfold dueCandidates
  rw [bind_eq_ok, exists_and_right, hscope]
  apply and_congr_right
  intro _
  split
  . next h =>
    simp only [Bool.or_eq_true, Bool.not_eq_true', decide_eq_true_eq] at h
    constructor
    . intro hcases
      cases hcases
    . rintro ⟨⟨hvalid, hlt⟩, _⟩
      rcases h with h | h
      . rw [hvalid] at h
        cases h
      . exact absurd hlt (not_lt.mpr h)
  . next h =>
    simp only [Bool.or_eq_true, Bool.not_eq_true', decide_eq_true_eq, not_or, Bool.not_eq_false, not_le] at h
    rw [and_iff_right h]
    cases hcurrent : step.stores.isCurrent with
    | error e => simp
    | ok current =>
      cases current with
      | false => simp
      | true =>
        cases hdue : step.stores.due with
        | error e => simp
        | ok due => simp

theorem candidates_eq_ok (hadmitted : step.stores.admitted.isOk) (hbefore : step.stores.before.isOk)
    (hscope : Text.trim step.scope.tenantId ≠ "" ∧ Text.trim step.scope.projectId ≠ "")
    (hauthority : step.authority.isStructurallyValid ∧ step.stores.observedAt < step.authority.leaseExpiresAt)
    (hcurrent : step.stores.isCurrent = .ok true) (hdue : step.stores.due = .ok candidates)
    : step.candidates = .ok candidates := by
  rcases isOk_iff.mp hadmitted with ⟨admitted, hadmitted⟩
  rcases isOk_iff.mp hbefore with ⟨before, hbefore⟩
  have hcandidates := dueCandidates_eq_ok.mpr ⟨hscope, hauthority, hcurrent, hdue⟩
  unfold ControlStep.candidates
  rw [bind_eq_ok]
  refine ⟨admitted, hadmitted, ?_⟩
  rw [bind_eq_ok]
  exact ⟨before, hbefore, hcandidates⟩

theorem driveControlScope_isOk : (step.driveControlScope lib).isOk ↔ step.Sound lib := by
  rw [isOk_iff]
  unfold driveControlScope
  simp only [bind_eq_ok, dueCandidates_eq_ok]
  constructor
  . rintro ⟨_, admitted, hadmitted, before, hbefore, candidates, ⟨hscope, hauthority, hcurrent, hdue⟩, fire, hfire,
      after, hafter, _⟩
    refine ⟨isOk_iff.mpr ⟨_, hadmitted⟩, isOk_iff.mpr ⟨_, hbefore⟩, isOk_iff.mpr ⟨_, hafter⟩, hscope, hauthority,
      hcurrent, candidates, hdue, ?_⟩
    apply fireLoop_isOk.mp
    exact isOk_iff.mpr ⟨fire, hfire⟩
  . intro h
    rcases isOk_iff.mp h.admitted with ⟨admitted, hadmitted⟩
    rcases isOk_iff.mp h.before with ⟨before, hbefore⟩
    rcases isOk_iff.mp h.after with ⟨after, hafter⟩
    rcases h.due with ⟨candidates, hdue, hcandidates⟩
    rcases isOk_iff.mp (fireLoop_isOk.mpr hcandidates) with ⟨fire, hfire⟩
    exact ⟨_, admitted, hadmitted, before, hbefore, candidates, ⟨h.scope, h.authority, h.isCurrent, hdue⟩, fire, hfire,
      after, hafter, rfl⟩

end ControlStep

namespace CycleStores

open Until

variable (lib : ScheduleLibrary F) (config : CronSchedulerConfig) (cycle : CycleStores F)

def listedPages (left page : Nat) (authority : CronSchedulerLease) (after : Option CronControlScope)
    : List (ControlStep F) :=
  match left with
  | 0 => []
  | left + 1 =>
    match cycle.workScopes page after with
    | .error _ => []
    | .ok scopes =>
      let next :=
        if scopes = [] ∨ scopes.length ≠ config.scopePageSize ∨ left = 0 then []
        else
          match cycle.renewed page with
          | .ok (some authority) => listedPages left (page + 1) authority scopes.getLast?
          | _ => []
      cycle.steps authority page scopes ++ next

def listed : List (ControlStep F) :=
  match cycle.acquired with
  | .ok (some authority) => cycle.listedPages config config.maxScopePages 0 authority none
  | _ => []

def driven : List (ControlStep F) :=
  (runControlOnce lib config cycle).2.driven

structure Isolated : Prop where
  scopes : driven lib config cycle = cycle.listed config
  candidates : ∀ step ∈ driven lib config cycle, ∀ candidates, step.candidates = .ok candidates →
    step.FiresValid lib candidates

structure Separate : Prop where
  scopes : ∀ step ∈ (cycle.listed config).dropLast, step.Sound lib
  candidates : ∀ step ∈ cycle.listed config, ∀ candidates, step.candidates = .ok candidates →
    step.ValidFirst lib candidates

variable {lib config cycle}

theorem drivePage_driven (steps : List (ControlStep F)) (run : ControlRun F)
    : (drivePage lib run steps).1.driven = run.driven ++ visited (fun step => (step.driveControlScope lib).isOk) steps ∧
        ((drivePage lib run steps).2.isOk ↔ steps.all fun step => (step.driveControlScope lib).isOk) := by
  induction steps generalizing run with
  | nil => simp [drivePage, visited, Except.isOk, Except.toBool]
  | cons step steps ih =>
    rw [drivePage, visited, List.all_cons]
    cases hstep : step.driveControlScope lib with
    | error e => simp [Except.isOk, Except.toBool]
    | ok report =>
      dsimp only
      rw [(ih _).1, (ih _).2]
      simp [Except.isOk, Except.toBool]

theorem driveControlPages_driven (left page : Nat) (authority : CronSchedulerLease) (after : Option CronControlScope)
    (run : ControlRun F)
    : (driveControlPages lib config cycle left page authority after run).1.driven
        = run.driven ++ visited (fun step => (step.driveControlScope lib).isOk)
            (cycle.listedPages config left page authority after) := by
  induction left generalizing page authority after run with
  | zero => simp [driveControlPages, listedPages, visited]
  | succ left ih =>
    rw [driveControlPages, listedPages]
    cases hpage : cycle.workScopes page after with
    | error e => simp [visited]
    | ok scopes =>
      cases scopes with
      | nil => simp [visited, steps]
      | cons scope scopes =>
        dsimp only
        rw [visited_append]
        generalize hrun : ({ run with report := { run.report with pages := run.report.pages + 1 } } : ControlRun F) =
          run'
        have hpage := @drivePage_driven F lib (cycle.steps authority page (scope :: scopes)) run'
        have hbefore : run'.driven = run.driven := by
          rw [← hrun]
        rw [hbefore] at hpage
        rcases hresult : drivePage lib run' (cycle.steps authority page (scope :: scopes)) with ⟨run'', result⟩
        rw [hresult] at hpage
        rcases hpage with ⟨hdriven, hok⟩
        cases result with
        | error e =>
          have hfails : ((cycle.steps authority page (scope :: scopes)).all
              fun step => (step.driveControlScope lib).isOk) = false := by
            rw [← Bool.not_eq_true, ← hok]
            simp [Except.isOk, Except.toBool]
          rw [hfails]
          simpa using hdriven
        | ok _ =>
          have hall := hok.mp rfl
          rw [if_pos hall, ← List.append_assoc]
          dsimp only at hdriven ⊢
          rw [← hdriven]
          by_cases hlast : (scope :: scopes).length = config.scopePageSize ∧ left ≠ 0
          . rw [if_neg (by simpa [not_or] using hlast), if_neg (by simpa [not_or] using hlast)]
            cases hrenewed : cycle.renewed page with
            | error e => simp [visited]
            | ok renewed =>
              cases renewed with
              | none => simp [visited]
              | some authority =>
                dsimp only
                rw [ih]
          . rw [if_pos (by simpa [or_iff_not_imp_left] using hlast),
              if_pos (by simpa [or_iff_not_imp_left] using hlast)]
            simp [visited]

theorem driven_eq : driven lib config cycle
    = visited (fun step => (step.driveControlScope lib).isOk) (cycle.listed config) := by
  unfold driven runControlOnce listed
  cases cycle.acquired with
  | error e => rfl
  | ok acquired =>
    cases acquired with
    | none => rfl
    | some authority =>
      have hdriven := @driveControlPages_driven F lib config cycle config.maxScopePages 0
        authority none { report := { authorityAcquired := true } }
      dsimp only
      rcases hresult : driveControlPages lib config cycle config.maxScopePages 0 authority none
          { report := { authorityAcquired := true } } with ⟨run, result⟩
      rw [hresult, List.nil_append] at hdriven
      cases result with
      | error e => exact hdriven
      | ok _ =>
        cases cycle.released with
        | error e => exact hdriven
        | ok released => exact hdriven

/--
One bad item blocks the others just when there is an item after it that it can block.
-/
theorem isolated_iff (lib : ScheduleLibrary F) (config : CronSchedulerConfig) (cycle : CycleStores F)
    : Isolated lib config cycle ↔ Separate lib config cycle := by
  have hscopes : driven lib config cycle = cycle.listed config ↔
      ∀ step ∈ (cycle.listed config).dropLast, step.Sound lib := by
    rw [driven_eq, visited_eq_self]
    simp only [ControlStep.driveControlScope_isOk]
  constructor
  . intro h
    refine ⟨hscopes.mp h.scopes, ?_⟩
    intro step hstep candidates hcandidates
    rw [← ControlStep.firesValid_iff]
    apply h.candidates step _ candidates hcandidates
    rw [h.scopes]
    exact hstep
  . intro h
    have hdriven := hscopes.mpr h.scopes
    refine ⟨hdriven, ?_⟩
    intro step hstep candidates hcandidates
    rw [hdriven] at hstep
    rw [ControlStep.firesValid_iff]
    exact h.candidates step hstep candidates hcandidates

section Blocked

open ScheduleStore (minuteLibrary everyJob minuteLease)

def dueJob (id : String) (createdBy : Option String) : CronDueSchedule Unit where
  snapshot := { everyJob 60 with id, createdBy }.snapshot
  scheduleFingerprint := "37028709f92618e7886c52fa1d0ed8a5f9167f0c2371c4d5550eada4c25a56bb"
  scheduledFor := 60 * Timestamp.second
  actorUserId := createdBy
  maxRetries := 3

def blockedStores (due : List (CronDueSchedule Unit)) : ScopeStores Unit where
  admitted := .ok 0
  before := .ok 0
  after := .ok 0
  observedAt := 60 * Timestamp.second
  isCurrent := .ok true
  due := .ok due
  transaction _ := .committed

def blockedDue : List (CronDueSchedule Unit) :=
  [dueJob "a" none, dueJob "job" (some "user")]

def blockedCycle : CycleStores Unit where
  acquired := .ok (some minuteLease)
  workScopes page _ :=
    match page with
    | 0 => .ok [⟨"tenant", "project"⟩]
    | 1 => .ok [⟨"tenant", "second"⟩]
    | _ => .ok []
  scope page _ :=
    match page with
    | 0 => blockedStores blockedDue
    | _ => blockedStores []
  renewed _ := .ok (some minuteLease)
  released := .ok true

def blockedConfig : CronSchedulerConfig where
  scopePageSize := 1
  maxScopePages := 2

def blockedStep : ControlStep Unit where
  authority := minuteLease
  scope := ⟨"tenant", "project"⟩
  stores := blockedStores blockedDue

theorem blocked_listed
    : blockedCycle.listed blockedConfig
        = [blockedStep, { authority := minuteLease, scope := ⟨"tenant", "second"⟩, stores := blockedStores [] }] :=
  rfl

theorem blocked_not_isolated
    : driven minuteLibrary blockedConfig blockedCycle ≠ blockedCycle.listed blockedConfig ∧
      ∃ step ∈ driven minuteLibrary blockedConfig blockedCycle, ∃ candidates, step.candidates = .ok candidates ∧
        ¬ step.FiresValid minuteLibrary candidates := by
  refine ⟨?_, blockedStep, ?_, blockedDue, ?_, ?_⟩
  . intro heq
    have hdriven : (driven minuteLibrary blockedConfig blockedCycle).length = 1 := by decide +kernel
    rw [heq, blocked_listed] at hdriven
    cases hdriven
  . rw [driven_eq, blocked_listed, visited]
    exact List.mem_cons_self
  . apply ControlStep.candidates_eq_ok
    . rfl
    . rfl
    . decide +kernel
    . decide +kernel
    . rfl
    . rfl
  . intro hfires
    have hlength := congrArg List.length hfires
    have hnone : (blockedStep.fireDue minuteLibrary blockedDue).2.length = 0 := by decide +kernel
    have hone : (blockedStep.fireDue minuteLibrary (blockedDue.filter (blockedStep.valid minuteLibrary))).2.length
        = 1 := by
      decide +kernel
    rw [hnone, hone] at hlength
    cases hlength

end Blocked

end CycleStores

end Cron
end MemStack
