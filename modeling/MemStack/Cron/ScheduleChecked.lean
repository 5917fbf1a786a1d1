import MemStack.Cron.Schedule
import MemStack.Util.Cursor
import MemStack.Util.Checked

/-!
This module contains the projection of a schedule with the checks and the panics of its arithmetic
(`cron_schedule_reconcile.rs`), for instants of any precision.
-/

namespace MemStack
namespace Cron
namespace ScheduleChecked

open ScheduleConfig

inductive Stopped where
  | error (e : ScheduleProjectionError)
  | panic
  deriving DecidableEq, Repr

def lift {α : Type} : Except ScheduleProjectionError α → Except Stopped α
  | .ok a => .ok a
  | .error e => .error (.error e)

-- A result of `i64`, if it is in range.
def i64? (n : Int) : Option Int :=
  if -2 ^ 63 ≤ n ∧ n < 2 ^ 63 then some n else none

def checkedDiv (a b : Int) : Option Int :=
  if b = 0 then none else i64? (a.tdiv b)

def checkedAdd (a b : Int) : Option Int :=
  i64? (a + b)

def checkedMul (a b : Int) : Option Int :=
  i64? (a * b)

-- `i64::MAX / 1000`, the most seconds that a duration can have.
def maxDuration : Int :=
  9223372036854775

-- `Duration::seconds(seconds)`.
def duration (seconds : Int) : Except Stopped Int :=
  if -maxDuration ≤ seconds ∧ seconds ≤ maxDuration then .ok seconds else .error .panic

-- An instant that the library for dates can hold, when a second has `second` parts.
def InRange (second value : Int) : Prop :=
  Timestamp.minSeconds ≤ value.fdiv second ∧ value.fdiv second ≤ Timestamp.maxSeconds

def checkedAddSigned (second value seconds : Int) : Option Int :=
  let sum := value.fdiv second + seconds
  if Timestamp.minSeconds ≤ sum ∧ sum ≤ Timestamp.maxSeconds then some (value + seconds * second) else none

def addSeconds (second value seconds : Int) : Except Stopped Int := do
  let seconds ← duration seconds
  match checkedAddSigned second value seconds with
  | some sum => .ok sum
  | none => .error (.error .overflow)

def nextIntervalFire (second anchor intervalSeconds observedAt : Int) : Except Stopped Int :=
  if anchor > observedAt then .ok anchor
  else
    let elapsedSeconds := (observedAt - anchor).tdiv second
    match (checkedDiv elapsedSeconds intervalSeconds).bind (checkedAdd · 1) with
    | none => .error (.error .overflow)
    | some steps =>
      match checkedMul intervalSeconds steps with
      | none => .error (.error .overflow)
      | some deltaSeconds => addSeconds second anchor deltaSeconds

variable {F : Type}

def interval (snapshot : CronScheduleSnapshot F) : Option Int :=
  ((get snapshot.scheduleConfig "interval_seconds").bind asI64).filter (· > 0)

def timezone (snapshot : CronScheduleSnapshot F) : String :=
  ((get snapshot.scheduleConfig "timezone").bind Json.asStr).getD snapshot.timezone

structure Library (F Tz Expr : Type) where
  parseFromRfc3339 : String → Option Int
  tzFromStr : String → Option Tz
  cronFromStr : String → Option Expr
  -- The next occurrence after an instant, which is not counted itself.
  findNextOccurrence (cron : Expr) (timezone : Tz) (searchAt : Int) : Option Int
  -- The hash of the text of a value, in hexadecimal digits.
  digest : Json F → String

section Projection

variable {Tz Expr : Type} (second : Int) (lib : Library F Tz Expr)

def parseUtc (value : String) : Except Stopped Int :=
  match lib.parseFromRfc3339 value with
  | some value => .ok value
  | none => .error (.error .invalid)

def scheduleFingerprint (snapshot : CronScheduleSnapshot F) : String :=
  lib.digest (.dict [
    ("enabled", .bool snapshot.enabled),
    ("schedule_config", snapshot.scheduleConfig),
    ("schedule_type", .str snapshot.scheduleType),
    ("stagger_seconds", .int snapshot.staggerSeconds),
    ("timezone", .str snapshot.timezone)])

def runAt (snapshot : CronScheduleSnapshot F) : Except Stopped Int := do
  let runAt ← lift (requiredString snapshot.scheduleConfig "run_at")
  parseUtc lib runAt

def anchorAt (snapshot : CronScheduleSnapshot F) : Except Stopped Int :=
  match (get snapshot.scheduleConfig "anchor_at").bind Json.asStr with
  | some anchor => parseUtc lib anchor
  | none => .ok snapshot.createdAt

def expression (snapshot : CronScheduleSnapshot F) : Except Stopped (Expr × Tz) := do
  let expression ← lift (requiredString snapshot.scheduleConfig "expr")
  match lib.tzFromStr (timezone snapshot) with
  | none => .error (.error .invalid)
  | some timezone =>
    match lib.cronFromStr expression with
    | none => .error (.error .invalid)
    | some cron => .ok (cron, timezone)

def projectAt (snapshot : CronScheduleSnapshot F) (observedAt : Int)
    : Except Stopped (CronScheduleStatus × Option Int) := do
  let runAt ← runAt lib snapshot
  let fireAt ← addSeconds second runAt snapshot.staggerSeconds
  if fireAt > observedAt then
    return (.active, some fireAt)
  else
    return (.exhausted, none)

def projectEvery (snapshot : CronScheduleSnapshot F) (observedAt : Int)
    : Except Stopped (CronScheduleStatus × Option Int) :=
  match interval snapshot with
  | none => .error (.error .invalid)
  | some interval => do
    let anchor ← anchorAt lib snapshot
    let anchor ← addSeconds second anchor snapshot.staggerSeconds
    let next ← nextIntervalFire second anchor interval observedAt
    return (.active, some next)

def projectCron (snapshot : CronScheduleSnapshot F) (observedAt : Int)
    : Except Stopped (CronScheduleStatus × Option Int) := do
  let (cron, timezone) ← expression lib snapshot
  let searchAt ← addSeconds second observedAt (-snapshot.staggerSeconds)
  match lib.findNextOccurrence cron timezone searchAt with
  | none => .error (.error .invalid)
  | some next => do
    let next ← addSeconds second next snapshot.staggerSeconds
    return (.active, some next)

def projectType (snapshot : CronScheduleSnapshot F) (observedAt : Int)
    : Except Stopped (CronScheduleStatus × Option Int) :=
  match snapshot.scheduleType with
  | "at" => projectAt second lib snapshot observedAt
  | "every" => projectEvery second lib snapshot observedAt
  | "cron" => projectCron second lib snapshot observedAt
  | _ => .error (.error .invalid)

def projectSchedule (snapshot : CronScheduleSnapshot F) (observedAt : Int)
    : Except Stopped CronScheduleProjection :=
  let scheduleFingerprint := scheduleFingerprint lib snapshot
  if !snapshot.enabled then
    .ok { status := .disabled, scheduleFingerprint, nextFireAt := none }
  else if snapshot.staggerSeconds < 0 then
    .error (.error .invalid)
  else do
    let (status, nextFireAt) ← projectType second lib snapshot observedAt
    return { status, scheduleFingerprint, nextFireAt }

end Projection

theorem addSeconds_eq_ok {second value seconds sum : Int}
    : addSeconds second value seconds = .ok sum ↔
      (-maxDuration ≤ seconds ∧ seconds ≤ maxDuration) ∧
      (Timestamp.minSeconds ≤ value.fdiv second + seconds ∧
        value.fdiv second + seconds ≤ Timestamp.maxSeconds) ∧
      sum = value + seconds * second := by
  unfold addSeconds duration checkedAddSigned
  by_cases hduration : -maxDuration ≤ seconds ∧ seconds ≤ maxDuration
  . rw [if_pos hduration]
    simp only [bind, Except.bind]
    by_cases hrange : Timestamp.minSeconds ≤ value.fdiv second + seconds ∧
        value.fdiv second + seconds ≤ Timestamp.maxSeconds
    . rw [if_pos hrange]
      simp only [Except.ok.injEq, hduration, hrange, true_and, and_true]
      exact eq_comm
    . rw [if_neg hrange]
      simp [hrange]
  . rw [if_neg hduration]
    simp [bind, Except.bind, hduration]

theorem addSeconds_ne_panic {seconds : Int} (h : -maxDuration ≤ seconds ∧ seconds ≤ maxDuration)
    (second value : Int)
    : addSeconds second value seconds ≠ .error .panic := by
  unfold addSeconds duration
  rw [if_pos h]
  simp only [bind, Except.bind]
  split
  . simp
  . simp

theorem addSeconds_eq_panic {seconds : Int} (h : maxDuration < seconds) (second value : Int)
    : addSeconds second value seconds = .error .panic := by
  unfold addSeconds duration
  rw [if_neg (by omega)]
  rfl

theorem inRange_of_addSeconds {second value seconds sum : Int} (hsecond : 0 < second)
    (h : addSeconds second value seconds = .ok sum)
    : InRange second sum := by
  obtain ⟨-, hrange, rfl⟩ := addSeconds_eq_ok.mp h
  unfold InRange
  rwa [Int.add_mul_fdiv_right _ _ (by omega)]

section Interval

variable {second anchor interval observedAt : Int}

end Interval

section FireTimes

variable {Tz Expr : Type} (second : Int) (lib : Library F Tz Expr) (occurs : Expr → Tz → Int → Prop)

variable {second lib occurs} {snapshot : CronScheduleSnapshot F} {observedAt : Int}

theorem interval_pos {seconds : Int} (h : interval snapshot = some seconds) : 0 < seconds ∧ seconds < 2 ^ 63 := by
  unfold interval at h
  obtain ⟨hsome, hpos⟩ := Option.filter_eq_some_iff.mp h
  obtain ⟨value, -, hvalue⟩ := Option.bind_eq_some_iff.mp hsome
  unfold asI64 at hvalue
  split at hvalue
  . rw [Option.ite_none_right_eq_some, Option.some.injEq] at hvalue
    obtain ⟨hrange, rfl⟩ := hvalue
    exact ⟨by simpa using hpos, hrange.2⟩
  . cases hvalue

end FireTimes

def nanosecondsPerSecond : Int :=
  1000000000

section Minutes

def minute : Int :=
  60 * nanosecondsPerSecond

def minutes : Library Empty Unit Unit where
  parseFromRfc3339 _ := none
  tzFromStr text := if text = "UTC" then some () else none
  cronFromStr text := if text = "* * * * *" then some () else none
  findNextOccurrence _ _ searchAt := some ((searchAt / minute + 1) * minute)
  digest _ := ""

def everyMinute : CronScheduleSnapshot Empty where
  jobId := "job"
  tenantId := "tenant"
  projectId := "project"
  jobRevision := 1
  scheduleRevision := 1
  enabled := true
  scheduleType := "cron"
  scheduleConfig := .dict [("expr", .str "* * * * *")]
  timezone := "UTC"
  staggerSeconds := 5
  createdAt := 0

end Minutes

end ScheduleChecked
end Cron
end MemStack
