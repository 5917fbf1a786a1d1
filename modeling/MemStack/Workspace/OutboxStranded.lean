import MemStack.Workspace.OutboxLemmas

/-!
This module contains just when no item of the outbox is stranded.
-/

namespace MemStack
namespace Workspace

namespace PlanOutbox

variable (o : PlanOutbox)

def isOver : Bool :=
  o.status = .completed || o.status = .deadLetter

def isParked : Bool :=
  !o.isMention && (o.status = .waiting .pendingRuntime || o.status = .waiting .runtimeResponseReady ||
    o.status = .waiting .runtimeErrorReady)

def hasPassed (clock : Timestamp) : Bool :=
  o.leaseExpiresAt.all (· ≤ clock) && o.nextAttemptAt.all (· ≤ clock)

structure Stuck (clock : Timestamp) : Prop where
  last : o.maxAttempts ≤ o.attemptCount
  open_ : o.isOver = false
  unparked : o.isParked = false
  passed : o.hasPassed clock

structure Sound : Prop where
  attempts : o.attemptCount ≤ o.maxAttempts
  positive : 1 ≤ o.maxAttempts
  known : ∀ text, o.status ≠ .other text
  leased : o.status = .processing → o.leaseExpiresAt.isSome
  unscheduled : o.status = .processing → o.nextAttemptAt = none

variable {o}

theorem isDue_iff {clock : Timestamp} (h : o.Sound) (hopen : o.isOver = false) (hunparked : o.isParked = false)
    (hpassed : o.hasPassed clock)
    : o.isDue clock ↔ o.attemptCount < o.maxAttempts := by
  simp only [hasPassed, Bool.and_eq_true] at hpassed
  unfold isDue
  rw [Bool.and_eq_true, decide_eq_true_eq]
  apply and_iff_left
  cases hstatus : o.status with
  | waiting status =>
    cases status with
    | pending => exact hpassed.2
    | failed => exact hpassed.2
    | _ => simp_all [isParked]
  | processing =>
    rcases Option.isSome_iff_exists.mp (h.leased hstatus) with ⟨expires, hexpires⟩
    rw [hexpires] at hpassed ⊢
    exact hpassed.1
  | completed => simp [isOver, hstatus] at hopen
  | deadLetter => simp [isOver, hstatus] at hopen
  | other text => exact absurd hstatus (h.known text)

theorem Sound.claimed (h : o.Sound) {leaseOwner : String} {leaseSeconds : Int} {now : Timestamp}
    (hattempts : o.attemptCount < o.maxAttempts)
    : (o.claimed leaseOwner leaseSeconds now).Sound where
  attempts := hattempts
  positive := h.positive
  known := nofun
  leased _ := rfl
  unscheduled _ := rfl

theorem Sound.completed (h : o.Sound) {now : Timestamp} : (o.completed now).Sound where
  attempts := h.attempts
  positive := h.positive
  known := nofun
  leased := nofun
  unscheduled := nofun

theorem Sound.released (h : o.Sound) {errorMessage : Option String} {now : Timestamp}
    : (o.released errorMessage now).Sound where
  attempts := by
    have := h.attempts
    simp only [PlanOutbox.released]
    omega
  positive := h.positive
  known := nofun
  leased := nofun
  unscheduled := nofun

theorem Sound.parked (h : o.Sound) {status : WaitingStatus} {now : Timestamp}
    : (o.parked (.waiting status) now).Sound where
  attempts := h.attempts
  positive := h.positive
  known := nofun
  leased := nofun
  unscheduled := nofun

theorem Sound.renewed (h : o.Sound) {leaseSeconds : Int} {now : Timestamp}
    : (o.renewed leaseSeconds now).Sound where
  attempts := h.attempts
  positive := h.positive
  known := h.known
  leased _ := rfl
  unscheduled := h.unscheduled

theorem failed_not_processing {failure : Failure}
    (hstatus : failure.status = .deadLetter ∨ failure.status = .waiting .failed)
    : (o.failed failure).status ≠ .processing := by
  change failure.status ≠ .processing
  cases hstatus with
  | inl hstatus =>
    rw [hstatus]
    nofun
  | inr hstatus =>
    rw [hstatus]
    nofun

theorem Sound.failed (h : o.Sound) {failure : Failure}
    (hstatus : failure.status = .deadLetter ∨ failure.status = .waiting .failed)
    : (o.failed failure).Sound where
  attempts := h.attempts
  positive := h.positive
  known := by
    intro text htext
    change failure.status = .other text at htext
    cases hstatus with
    | inl hstatus =>
      rw [hstatus] at htext
      cases htext
    | inr hstatus =>
      rw [hstatus] at htext
      cases htext
  leased := by
    intro hprocessing
    exact absurd hprocessing (failed_not_processing hstatus)
  unscheduled := by
    intro hprocessing
    exact absurd hprocessing (failed_not_processing hstatus)

theorem Sound.retried (h : o.Sound) {retry : Retry} (hattempts : retry.attemptCount ≤ o.maxAttempts)
    : (o.retried retry).Sound where
  attempts := hattempts
  positive := h.positive
  known := nofun
  leased := nofun
  unscheduled := nofun

theorem stuck_claimed {leaseOwner : String} {leaseSeconds : Int} {now clock : Timestamp}
    : (o.claimed leaseOwner leaseSeconds now).Stuck clock ↔
        o.maxAttempts ≤ o.attemptCount + 1 ∧ now.addSeconds (max leaseSeconds 1) ≤ clock := by
  constructor
  . intro h
    have hpassed := h.passed
    simp only [hasPassed, PlanOutbox.claimed, Option.all_some, Option.all_none, Bool.and_true,
      decide_eq_true_eq] at hpassed
    exact ⟨h.last, hpassed⟩
  . intro h
    constructor
    . exact h.1
    . rfl
    . simp [isParked, PlanOutbox.claimed]
    . simp [hasPassed, PlanOutbox.claimed, h.2]

theorem not_stuck_completed {now clock : Timestamp} : ¬ (o.completed now).Stuck clock := by
  intro h
  cases h.open_

theorem not_stuck_released (h : o.Sound) {errorMessage : Option String} {now clock : Timestamp}
    : ¬ (o.released errorMessage now).Stuck clock := by
  intro hstuck
  have hlast := hstuck.last
  have hattempts := h.attempts
  have hpositive := h.positive
  simp only [PlanOutbox.released] at hlast
  omega

theorem stuck_parked {status : WaitingStatus} {now clock : Timestamp}
    : (o.parked (.waiting status) now).Stuck clock ↔
        o.maxAttempts ≤ o.attemptCount ∧ (o.isMention ∨ status = .pending ∨ status = .failed) := by
  have hparked : (o.parked (.waiting status) now).isParked = false ↔
      (o.isMention ∨ status = .pending ∨ status = .failed) := by
    have hmention : (o.parked (.waiting status) now).isMention = o.isMention := rfl
    unfold isParked
    rw [hmention]
    cases status <;> cases o.isMention <;> simp [PlanOutbox.parked]
  constructor
  . intro h
    exact ⟨h.last, hparked.mp h.unparked⟩
  . intro h
    exact ⟨h.1, rfl, hparked.mpr h.2, rfl⟩

theorem stuck_renewed (h : o.Sound) (hprocessing : o.status = .processing) {leaseSeconds : Int}
    {now clock : Timestamp}
    : (o.renewed leaseSeconds now).Stuck clock ↔
        o.maxAttempts ≤ o.attemptCount ∧ now.addSeconds (max leaseSeconds 1) ≤ clock := by
  constructor
  . intro hstuck
    have hpassed := hstuck.passed
    simp only [hasPassed, PlanOutbox.renewed, Option.all_some, Bool.and_eq_true, decide_eq_true_eq] at hpassed
    exact ⟨hstuck.last, hpassed.1⟩
  . intro hboth
    constructor
    . exact hboth.1
    . simp [isOver, PlanOutbox.renewed, hprocessing]
    . simp [isParked, PlanOutbox.renewed, hprocessing]
    . simp [hasPassed, PlanOutbox.renewed, hboth.2, h.unscheduled hprocessing]

theorem stuck_failed {failure : Failure} {clock : Timestamp}
    (hstatus : failure.status = .deadLetter ∨ failure.status = .waiting .failed)
    : (o.failed failure).Stuck clock ↔
        o.maxAttempts ≤ o.attemptCount ∧ failure.status = .waiting .failed ∧
          failure.nextAttemptAt.all (· ≤ clock) := by
  constructor
  . intro h
    refine ⟨h.last, ?_, h.passed⟩
    apply hstatus.resolve_left
    intro hdead
    have hopen := h.open_
    simp [isOver, PlanOutbox.failed, hdead] at hopen
  . intro h
    constructor
    . exact h.1
    . simp [isOver, PlanOutbox.failed, h.2.1]
    . simp [isParked, PlanOutbox.failed, h.2.1]
    . exact h.2.2

theorem stuck_retried {retry : Retry} {clock : Timestamp}
    : (o.retried retry).Stuck clock ↔ o.maxAttempts ≤ retry.attemptCount := by
  constructor
  . intro h
    exact h.last
  . intro h
    refine ⟨h, rfl, ?_, rfl⟩
    simp [isParked, PlanOutbox.retried]

theorem not_stuck_ofNew (item : NewPlanOutbox) (clock : Timestamp) : ¬ (ofNew item).Stuck clock := by
  intro h
  have hlast : item.maxAttempts ≤ 0 := h.last
  have hpositive := item.maxAttempts_pos
  omega

theorem sound_ofNew (item : NewPlanOutbox) : (ofNew item).Sound where
  attempts := Nat.zero_le _
  positive := item.maxAttempts_pos
  known := nofun
  leased := nofun
  unscheduled := nofun

end PlanOutbox

namespace Outbox

section Wellformed

def ParksWaiting (request : OutboxRequest) : Prop :=
  ∀ id status leaseOwner lag, request = .park id status leaseOwner lag → ∃ waiting, status = .waiting waiting

structure Inv (s : Outbox) : Prop where
  nodup : (s.items.map (·.id)).Nodup
  sound : ∀ o ∈ s.items, o.Sound
  failing : ∀ failure, .failing failure ∈ s.calls →
    failure.status = .deadLetter ∨ failure.status = .waiting .failed
  retrying : ∀ retry, .retrying retry ∈ s.calls → ∀ o ∈ s.items, o.id = retry.id →
    retry.attemptCount ≤ o.maxAttempts
  -- What is read again was in the table.
  present : ∀ retry, .retrying retry ∈ s.calls → ∃ o ∈ s.items, o.id = retry.id

variable {s : Outbox} {request : OutboxRequest} {o : PlanOutbox}

theorem mem_calls_of_get {call : Nat} {c : Call} (h : s.calls[call]? = some c) : c ∈ s.calls :=
  List.mem_of_getElem? h

theorem inv_start (clock : Timestamp) : Inv { clock } where
  nodup := List.nodup_nil
  sound := by
    intro o ho
    cases ho
  failing := by
    intro failure hfailure
    cases hfailure
  retrying := by
    intro retry hretry
    cases hretry
  present := by
    intro retry hretry
    cases hretry

theorem sound_sets (h : Inv s) (hparks : ParksWaiting request) (ho : o ∈ s.items) (hselects : s.selects request o)
    : (s.sets request o).Sound := by
  have hsound := h.sound o ho
  cases request with
  | claimDue limit leaseOwner leaseSeconds lag =>
    apply hsound.claimed
    simp only [selects, Bool.and_eq_true] at hselects
    have hdue := (mem_due ((due_iff_any h.nodup ho).mp hselects.2)).2
    simp only [PlanOutbox.isDue, Bool.and_eq_true, decide_eq_true_eq] at hdue
    exact hdue.1
  | markCompleted => exact hsound.completed
  | release => exact hsound.released
  | park id status leaseOwner lag =>
    rcases hparks id status leaseOwner lag rfl with ⟨waiting, rfl⟩
    exact hsound.parked
  | renew => exact hsound.renewed
  | write call =>
    cases hcall : s.calls[call]? with
    | none =>
      simp only [selects, hcall] at hselects
      cases hselects
    | some c =>
      cases c with
      | failing failure =>
        simp only [sets, hcall]
        exact hsound.failed (h.failing failure (mem_calls_of_get hcall))
      | retrying retry =>
        simp only [selects, hcall, selectsCall, decide_eq_true_eq] at hselects
        simp only [sets, hcall]
        exact hsound.retried (h.retrying retry (mem_calls_of_get hcall) o ho hselects)
      | done =>
        simp only [selects, hcall] at hselects
        cases hselects
  | _ => cases hselects

theorem old_or_new (ho : o ∈ (step s request).1.items)
    : (∃ old ∈ s.items, o.id = old.id ∧ o.maxAttempts = old.maxAttempts) ∨
        (∃ item, o = .ofNew item) ∧ ∀ old ∈ s.items, old.id ≠ o.id := by
  rcases mem_items_step.mp ho with ⟨old, hold, rfl⟩ | hnew
  . left
    refine ⟨old, hold, ?_⟩
    split
    . exact ⟨sets_id request old, sets_maxAttempts request old⟩
    . exact ⟨rfl, rfl⟩
  . exact .inr (mem_added hnew)

theorem inv_step (h : Inv s) (hparks : ParksWaiting request) : Inv (step s request).1 := by
  constructor
  case nodup => exact nodup_step h.nodup
  case sound =>
    intro o ho
    rcases mem_items_step.mp ho with ⟨old, hold, rfl⟩ | hnew
    . split
      . next hselects => exact sound_sets h hparks hold hselects
      . exact h.sound old hold
    . rcases (mem_added hnew).1 with ⟨item, rfl⟩
      exact PlanOutbox.sound_ofNew item
  case failing =>
    intro failure hfailure
    rcases mem_calls_step hfailure with hold | hdone | ⟨o, _, _, errorMessage, leaseOwner, lag, _, hnew⟩ | hretry
    . exact h.failing failure hold
    . cases hdone
    . cases hnew
      apply PlanOutbox.status_failure
    . rcases hretry with ⟨_, _, _, _, _, _, hnew⟩
      cases hnew
  case retrying =>
    intro retry hretry o ho hid
    rcases mem_calls_step hretry with hold | hdone | ⟨_, _, _, _, _, _, _, hnew⟩ | hnew
    . rcases old_or_new ho with ⟨old, hmem, hoId, hmax⟩ | ⟨_, hother⟩
      . rw [hmax]
        apply h.retrying retry hold old hmem
        rw [← hoId, hid]
      . rcases h.present retry hold with ⟨old, hmem, hold'⟩
        exact absurd (hold'.trans hid.symm) (hother old hmem)
    . cases hdone
    . cases hnew
    . rcases hnew with ⟨item, hitem, _, _, lag, _, hnew⟩
      cases hnew
      rcases old_or_new ho with ⟨old, hmem, hoId, hmax⟩ | ⟨_, hother⟩
      . have : old = item := by
          apply Table.eq_of_key h.nodup hmem hitem
          rw [← hoId, hid]
          rfl
        rw [hmax, this]
        simp only [PlanOutbox.retry]
        split
        . exact Nat.zero_le _
        . exact (h.sound item hitem).attempts
      . exact absurd hid.symm (hother item hitem)
  case present =>
    have hkeeps : ∀ old ∈ s.items, ∃ o ∈ (step s request).1.items, o.id = old.id := by
      intro old hold
      refine ⟨_, mem_items_step.mpr (.inl ⟨old, hold, rfl⟩), ?_⟩
      split
      . apply sets_id
      . rfl
    intro retry hretry
    rcases mem_calls_step hretry with hold | hdone | ⟨_, _, _, _, _, _, _, hnew⟩ | hnew
    . rcases h.present retry hold with ⟨old, hmem, hid⟩
      rcases hkeeps old hmem with ⟨o, ho, hoId⟩
      exact ⟨o, ho, hoId.trans hid⟩
    . cases hdone
    . cases hnew
    . rcases hnew with ⟨item, hitem, _, _, lag, _, hnew⟩
      cases hnew
      exact hkeeps item hitem

end Wellformed

section Stranded

variable {s : Outbox} {request : OutboxRequest} {o : PlanOutbox}

def Reclaimable (s : Outbox) (o : PlanOutbox) : Prop :=
  ∃ large : Int, ∀ limit ≥ large, ∀ leaseOwner leaseSeconds,
    ∃ row ∈ (s.claimDue limit leaseOwner leaseSeconds s.clock).2.claims, row.id = o.id

def NoneStranded (s : Outbox) : Prop :=
  ∀ o ∈ s.items, o.isOver = false → o.isParked = false → o.hasPassed s.clock → s.Reclaimable o

inductive Strands (s : Outbox) : OutboxRequest → Prop where
  -- The worker of the last attempt has crashed, or a late failure has put the item off.
  | passes {o : PlanOutbox} {time : Nat} (ho : o ∈ s.items) (hstuck : o.Stuck (s.clock + time))
      : Strands s (.advance time)
  -- The lease of the last attempt is over at once.
  | claims {o : PlanOutbox} {limit : Int} {leaseOwner : String} {leaseSeconds : Int} {lag : Nat}
      (hlimit : 0 < limit) (ho : o ∈ s.due limit (s.now lag)) (hlast : o.maxAttempts ≤ o.attemptCount + 1)
      (hpassed : (s.now lag).addSeconds (max leaseSeconds 1) ≤ s.clock)
      : Strands s (.claimDue limit leaseOwner leaseSeconds lag)
  | renews {o : PlanOutbox} {id leaseOwner : String} {leaseSeconds : Int} {lag : Nat} (ho : o ∈ s.items)
      (hheld : o.isHeld id (some leaseOwner)) (hlast : o.maxAttempts ≤ o.attemptCount)
      (hpassed : (s.now lag).addSeconds (max leaseSeconds 1) ≤ s.clock)
      : Strands s (.renew id leaseOwner leaseSeconds lag)
  -- The last attempt parks the item for another one.
  | parks {o : PlanOutbox} {id : String} {status : WaitingStatus} {leaseOwner : Option String} {lag : Nat}
      (ho : o ∈ s.items) (hheld : o.isHeld id leaseOwner) (hlast : o.maxAttempts ≤ o.attemptCount)
      (hclaimable : o.isMention ∨ status = .pending ∨ status = .failed)
      : Strands s (.park id (.waiting status) leaseOwner lag)
  -- The failure of an earlier attempt is written to the last one.
  | fails {o : PlanOutbox} {call : Nat} {failure : Failure} (hcall : s.calls[call]? = some (.failing failure))
      (ho : o ∈ s.items) (hheld : o.isHeld failure.id failure.leaseOwner) (hlast : o.maxAttempts ≤ o.attemptCount)
      (hstatus : failure.status = .waiting .failed) (hpassed : failure.nextAttemptAt.all (· ≤ s.clock))
      : Strands s (.write call)
  | retries {o : PlanOutbox} {call : Nat} {retry : Retry} (hcall : s.calls[call]? = some (.retrying retry))
      (ho : o ∈ s.items) (hid : o.id = retry.id) (hlast : o.maxAttempts ≤ retry.attemptCount)
      : Strands s (.write call)

theorem reclaimable_iff (hnodup : (s.items.map (·.id)).Nodup) (ho : o ∈ s.items)
    : s.Reclaimable o ↔ o.isDue s.clock := by
  constructor
  . rintro ⟨large, hlarge⟩
    rcases hlarge (max large 1) (le_max_left _ _) "" 0 with ⟨row, hrow, hid⟩
    have hlimit : ¬ max large 1 ≤ 0 := by omega
    simp only [claimDue, if_neg hlimit, OutboxReply.claims, List.mem_map] at hrow
    rcases hrow with ⟨other, hother, rfl⟩
    have : other = o := Table.eq_of_key hnodup (mem_due hother).1 ho hid
    rw [← this]
    exact (mem_due hother).2
  . intro hdue
    refine ⟨max ((s.items.filter (·.isDue s.clock)).length : Int) 1, ?_⟩
    intro limit hlimit leaseOwner leaseSeconds
    have hpos : ¬ limit ≤ 0 := by omega
    refine ⟨o.claimed leaseOwner leaseSeconds s.clock, ?_, rfl⟩
    simp only [claimDue, if_neg hpos, OutboxReply.claims]
    apply List.mem_map_of_mem
    apply Table.mem_select_of_few ho hdue
    omega

theorem noneStranded_iff (h : Inv s) : s.NoneStranded ↔ ∀ o ∈ s.items, ¬ o.Stuck s.clock := by
  constructor
  . intro hnone o ho hstuck
    have hreclaimable := hnone o ho hstuck.open_ hstuck.unparked hstuck.passed
    rw [reclaimable_iff h.nodup ho,
      PlanOutbox.isDue_iff (h.sound o ho) hstuck.open_ hstuck.unparked hstuck.passed] at hreclaimable
    have := hstuck.last
    omega
  . intro hnone o ho hopen hunparked hpassed
    rw [reclaimable_iff h.nodup ho, PlanOutbox.isDue_iff (h.sound o ho) hopen hunparked hpassed]
    apply Nat.lt_of_not_le
    intro hlast
    exact hnone o ho ⟨hlast, hopen, hunparked, hpassed⟩

theorem stuck_step (hnone : ∀ o ∈ s.items, ¬ o.Stuck s.clock) (hclock : (step s request).1.clock = s.clock)
    : (∃ o ∈ (step s request).1.items, o.Stuck (step s request).1.clock) ↔
        ∃ o ∈ s.items, s.selects request o ∧ (s.sets request o).Stuck s.clock := by
  rw [hclock]
  constructor
  . rintro ⟨o, ho, hstuck⟩
    rcases mem_items_step.mp ho with ⟨old, hold, rfl⟩ | hnew
    . by_cases hselects : s.selects request old
      . rw [if_pos hselects] at hstuck
        exact ⟨old, hold, hselects, hstuck⟩
      . rw [if_neg hselects] at hstuck
        exact absurd hstuck (hnone old hold)
    . rcases (mem_added hnew).1 with ⟨item, rfl⟩
      exact absurd hstuck (PlanOutbox.not_stuck_ofNew item _)
  . rintro ⟨o, ho, hselects, hstuck⟩
    refine ⟨s.sets request o, ?_, hstuck⟩
    apply mem_items_step.mpr
    refine .inl ⟨o, ho, ?_⟩
    rw [if_pos hselects]

theorem status_of_held {id : String} {leaseOwner : Option String} (h : o.isHeld id leaseOwner)
    : o.status = .processing :=
  (PlanOutbox.isHeld_iff.mp h).2.1

theorem stuck_advance_iff {time : Nat}
    : (∃ o ∈ (step s (.advance time)).1.items, o.Stuck (step s (.advance time)).1.clock) ↔
        Strands s (.advance time) := by
  constructor
  . rintro ⟨o, ho, hstuck⟩
    exact .passes ho hstuck
  . rintro (⟨ho, hstuck⟩)
    exact ⟨_, ho, hstuck⟩

theorem stuck_step_iff (h : Inv s) (hparks : ParksWaiting request) (hnone : ∀ o ∈ s.items, ¬ o.Stuck s.clock)
    : (∃ o ∈ (step s request).1.items, o.Stuck (step s request).1.clock) ↔ Strands s request := by
  cases request with
  | advance time => exact stuck_advance_iff
  | enqueue item =>
    rw [stuck_step hnone (clock_step _ _)]
    constructor
    . rintro ⟨o, _, hselects, _⟩
      cases hselects
    . intro hstrands
      cases hstrands
  | claimDue limit leaseOwner leaseSeconds lag =>
    rw [stuck_step hnone (clock_step _ _)]
    constructor
    . rintro ⟨o, ho, hselects, hstuck⟩
      simp only [selects, Bool.and_eq_true, decide_eq_true_eq] at hselects
      have hboth := PlanOutbox.stuck_claimed.mp hstuck
      exact .claims hselects.1 ((due_iff_any h.nodup ho).mp hselects.2) hboth.1 hboth.2
    . intro hstrands
      cases hstrands with
      | claims hlimit hdue hlast hpassed =>
        refine ⟨_, (mem_due hdue).1, ?_, PlanOutbox.stuck_claimed.mpr ⟨hlast, hpassed⟩⟩
        simp only [selects, Bool.and_eq_true, decide_eq_true_eq]
        exact ⟨hlimit, (due_iff_any h.nodup (mem_due hdue).1).mpr hdue⟩
  | markCompleted id leaseOwner lag =>
    rw [stuck_step hnone (clock_step _ _)]
    constructor
    . rintro ⟨o, _, _, hstuck⟩
      exact absurd hstuck PlanOutbox.not_stuck_completed
    . intro hstrands
      cases hstrands
  | markFailed id errorMessage leaseOwner lag =>
    rw [stuck_step hnone (clock_step _ _)]
    constructor
    . rintro ⟨o, _, hselects, _⟩
      cases hselects
    . intro hstrands
      cases hstrands
  | release id errorMessage leaseOwner lag =>
    rw [stuck_step hnone (clock_step _ _)]
    constructor
    . rintro ⟨o, ho, _, hstuck⟩
      exact absurd hstuck (PlanOutbox.not_stuck_released (h.sound o ho))
    . intro hstrands
      cases hstrands
  | park id status leaseOwner lag =>
    rcases hparks id status leaseOwner lag rfl with ⟨waiting, rfl⟩
    rw [stuck_step hnone (clock_step _ _)]
    constructor
    . rintro ⟨o, ho, hheld, hstuck⟩
      have hboth := PlanOutbox.stuck_parked.mp hstuck
      exact .parks ho hheld hboth.1 hboth.2
    . intro hstrands
      cases hstrands with
      | parks ho hheld hlast hclaimable =>
        exact ⟨_, ho, hheld, PlanOutbox.stuck_parked.mpr ⟨hlast, hclaimable⟩⟩
  | renew id leaseOwner leaseSeconds lag =>
    rw [stuck_step hnone (clock_step _ _)]
    constructor
    . rintro ⟨o, ho, hheld, hstuck⟩
      have hboth := (PlanOutbox.stuck_renewed (h.sound o ho) (status_of_held hheld)).mp hstuck
      exact .renews ho hheld hboth.1 hboth.2
    . intro hstrands
      cases hstrands with
      | renews ho hheld hlast hpassed =>
        refine ⟨_, ho, hheld, ?_⟩
        exact (PlanOutbox.stuck_renewed (h.sound _ ho) (status_of_held hheld)).mpr ⟨hlast, hpassed⟩
  | retryNow id workspaceId lag =>
    rw [stuck_step hnone (clock_step _ _)]
    constructor
    . rintro ⟨o, _, hselects, _⟩
      cases hselects
    . intro hstrands
      cases hstrands
  | write call =>
    rw [stuck_step hnone (clock_step _ _)]
    constructor
    . rintro ⟨o, ho, hselects, hstuck⟩
      cases hcall : s.calls[call]? with
      | none =>
        simp only [selects, hcall] at hselects
        cases hselects
      | some c =>
        simp only [selects, hcall] at hselects
        simp only [sets, hcall] at hstuck
        cases c with
        | failing failure =>
          have hstatus := h.failing failure (mem_calls_of_get hcall)
          have hall := (PlanOutbox.stuck_failed hstatus).mp hstuck
          exact .fails hcall ho hselects hall.1 hall.2.1 hall.2.2
        | retrying retry =>
          have hid : o.id = retry.id := by
            simpa [selectsCall] using hselects
          exact .retries hcall ho hid (PlanOutbox.stuck_retried.mp hstuck)
        | done => cases hselects
    . intro hstrands
      cases hstrands with
      | fails hcall ho hheld hlast hstatus hpassed =>
        refine ⟨_, ho, ?_, ?_⟩
        . simp only [selects, hcall]
          exact hheld
        . simp only [sets, hcall]
          exact (PlanOutbox.stuck_failed (.inr hstatus)).mpr ⟨hlast, hstatus, hpassed⟩
      | retries hcall ho hid hlast =>
        refine ⟨_, ho, ?_, ?_⟩
        . simp only [selects, hcall]
          simpa [selectsCall] using hid
        . simp only [sets, hcall]
          exact PlanOutbox.stuck_retried.mpr hlast

/-
As long as parked items get a status that a claim picks up, no item is ever stranded just when no step leaves
one behind that has used up its attempts.
-/
theorem noneStranded_run_iff (clock : Timestamp) (requests : List OutboxRequest)
    (hparks : ∀ e ∈ Machine.transcript step { clock } requests, ParksWaiting e.request)
    : (∀ e ∈ Machine.transcript step { clock } requests, NoneStranded e.after)
        ↔
      ∀ e ∈ Machine.transcript step { clock } requests, ¬ Strands e.before e.request := by
  apply Machine.forall_transcript_iff_of (I := fun s => Inv s ∧ ∀ o ∈ s.items, ¬ o.Stuck s.clock)
    (C := fun s request => ¬ Strands s request) (D := fun _ request => ParksWaiting request) _ _ requests hparks
  . intro s request h hparks
    have hafter := inv_step h.1 hparks
    have hiff : NoneStranded (step s request).1 ↔ ¬ Strands s request := by
      rw [noneStranded_iff hafter, ← stuck_step_iff h.1 hparks h.2]
      push Not
      rfl
    refine ⟨hiff, ?_⟩
    intro hnot
    exact ⟨hafter, (noneStranded_iff hafter).mp (hiff.mpr hnot)⟩
  . refine ⟨inv_start clock, ?_⟩
    intro o ho
    cases ho

def mention (maxAttempts : Nat) (h : 1 ≤ maxAttempts) : NewPlanOutbox where
  id := "mention"
  planId := none
  workspaceId := "workspace"
  eventType := "workspace_agent_mention"
  maxAttempts
  maxAttempts_pos := h
  createdAt := 0

theorem one_le_two_attempts : 1 ≤ 2 := by
  decide

def parkedRun : List OutboxRequest :=
  [.enqueue (mention 2 one_le_two_attempts), .claimDue 10 "worker" 30 0,
    .park "mention" (.waiting .pendingRuntime) (some "worker") 0]

def crashedRun : List OutboxRequest :=
  [.enqueue (mention 1 (by decide)), .claimDue 10 "worker" 30 0, .advance 60000000000]

theorem parked_not_stranded
    : NoneStranded (Machine.final step { clock := 0 } parkedRun) := by
  refine (noneStranded_run_iff 0 parkedRun ?_).mpr ?_ _ (List.mem_of_mem_getLast? rfl)
  . intro e he id status leaseOwner lag hrequest
    simp only [parkedRun, Machine.transcript, List.mem_cons, List.not_mem_nil, or_false] at he
    rcases he with rfl | rfl | rfl
    . cases hrequest
    . cases hrequest
    . cases hrequest
      exact ⟨.pendingRuntime, rfl⟩
  . have hclaimed : ∀ o ∈ (Machine.final step { clock := 0 } (parkedRun.take 1)).items,
        ¬ o.maxAttempts ≤ o.attemptCount + 1 := by
      decide +kernel
    have hparked : ∀ o ∈ (Machine.final step { clock := 0 } (parkedRun.take 2)).items,
        ¬ o.maxAttempts ≤ o.attemptCount := by
      decide +kernel
    intro e he
    simp only [parkedRun, Machine.transcript, List.mem_cons, List.not_mem_nil, or_false] at he
    rcases he with rfl | rfl | rfl
    . intro hstrands
      cases hstrands
    . intro hstrands
      cases hstrands with
      | claims _ ho hlast _ => exact hclaimed _ (mem_due ho).1 hlast
    . intro hstrands
      cases hstrands with
      | parks ho _ hlast _ => exact hparked _ ho hlast

theorem crashed_stranded
    : ¬ ∀ (clock : Timestamp) (requests : List OutboxRequest),
        (∀ e ∈ Machine.transcript step { clock } requests, ParksWaiting e.request) →
        ∀ e ∈ Machine.transcript step { clock } requests, NoneStranded e.after := by
  intro hclaim
  have hnone := hclaim 0 crashedRun ?_ _ (List.mem_of_mem_getLast? rfl)
  . have hdue : ∀ o ∈ (Machine.final step { clock := 0 } crashedRun).items, o.isOver = false →
        o.isParked = false → o.hasPassed (Machine.final step { clock := 0 } crashedRun).clock →
        o.isDue (Machine.final step { clock := 0 } crashedRun).clock := by
      intro o ho hopen hunparked hpassed
      have hnodup : ((Machine.final step { clock := 0 } crashedRun).items.map (·.id)).Nodup := by
        decide +kernel
      exact (reclaimable_iff hnodup ho).mp (hnone o ho hopen hunparked hpassed)
    revert hdue
    decide +kernel
  . intro e he id status leaseOwner lag hrequest
    simp only [crashedRun, Machine.transcript, List.mem_cons, List.not_mem_nil, or_false] at he
    rcases he with rfl | rfl | rfl <;> cases hrequest

end Stranded

end Outbox

end Workspace
end MemStack
