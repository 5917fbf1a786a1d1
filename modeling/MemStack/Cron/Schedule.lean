import MemStack.Port.Timestamp
import MemStack.Util.Json
import MemStack.Util.Text

/-!
This module contains the projection of the schedule of a job to the point in time at which it fires next
(`cron_schedule_reconcile.rs`), and the checks of a projection (`cron_schedule_repo.rs`).
-/

namespace MemStack
namespace Cron

inductive CronScheduleStatus where
  | active
  | disabled
  | exhausted
  deriving DecidableEq, Repr

structure CronScheduleSnapshot (F : Type) where
  jobId : String
  tenantId : String
  projectId : String
  jobRevision : Int
  scheduleRevision : Int
  enabled : Bool
  scheduleType : String
  scheduleConfig : Json F
  timezone : String
  staggerSeconds : Int
  createdAt : Timestamp

structure CronScheduleProjection where
  status : CronScheduleStatus
  scheduleFingerprint : String
  nextFireAt : Option Timestamp
  deriving DecidableEq, Repr

-- The libraries for dates, time zones, cron expressions, hashes and identifiers, and the equality of `jsonb`.
structure ScheduleLibrary (F : Type) where
  parseFromRfc3339 : String → Option Timestamp
  toRfc3339 : Timestamp → String
  -- What a column keeps of it, which is in microseconds.
  stored : Timestamp → Timestamp
  -- There is none when the expression or the time zone is not valid.
  findNextOccurrence (expression timezone : String) (searchAt : Timestamp) : Option Timestamp
  -- The hash of the text of a value, in hexadecimal digits.
  digest : Json F → String
  newV5 (name : String) : String
  sameJsonb : Json F → Json F → Bool

inductive ScheduleProjectionError where
  | invalid
  | overflow
  deriving DecidableEq, Repr

variable {F : Type}

namespace ScheduleConfig

def get (value : Json F) (field : String) : Option (Json F) :=
  match value with
  | .dict entries => Json.get entries field
  | _ => none

def asI64 : Json F → Option Int
  | .int n => if -2 ^ 63 ≤ n ∧ n < 2 ^ 63 then some n else none
  | _ => none

end ScheduleConfig

open ScheduleConfig

def requiredString (value : Json F) (field : String) : Except ScheduleProjectionError String :=
  match (((get value field).bind Json.asStr).map Text.trim).filter (· ≠ "") with
  | some text => .ok text
  | none => .error .invalid

-- A sum that is out of range. Where `Duration::seconds` panics the sum is also out of range.
def addSeconds (value : Timestamp) (seconds : Int) : Except ScheduleProjectionError Timestamp :=
  let sum := value.fdiv Timestamp.second + seconds
  if Timestamp.minSeconds ≤ sum ∧ sum ≤ Timestamp.maxSeconds then
    .ok (value + seconds * Timestamp.second)
  else
    .error .overflow

def nextIntervalFire (anchor : Timestamp) (intervalSeconds : Int) (observedAt : Timestamp)
    : Except ScheduleProjectionError Timestamp :=
  if anchor > observedAt then .ok anchor
  else
    let elapsedSeconds := (observedAt - anchor).tdiv Timestamp.second
    let steps := elapsedSeconds.tdiv intervalSeconds + 1
    addSeconds anchor (intervalSeconds * steps)

namespace ScheduleLibrary

variable (lib : ScheduleLibrary F)

def parseUtc (value : String) : Except ScheduleProjectionError Timestamp :=
  match lib.parseFromRfc3339 value with
  | some value => .ok value
  | none => .error .invalid

def scheduleFingerprint (snapshot : CronScheduleSnapshot F) : String :=
  lib.digest (.dict [
    ("enabled", .bool snapshot.enabled),
    ("schedule_config", snapshot.scheduleConfig),
    ("schedule_type", .str snapshot.scheduleType),
    ("stagger_seconds", .int snapshot.staggerSeconds),
    ("timezone", .str snapshot.timezone)])

def projectAt (snapshot : CronScheduleSnapshot F) (observedAt : Timestamp)
    : Except ScheduleProjectionError (CronScheduleStatus × Option Timestamp) := do
  let runAt ← requiredString snapshot.scheduleConfig "run_at"
  let runAt ← lib.parseUtc runAt
  let fireAt ← addSeconds runAt snapshot.staggerSeconds
  if fireAt > observedAt then
    return (.active, some fireAt)
  else
    return (.exhausted, none)

def projectEvery (snapshot : CronScheduleSnapshot F) (observedAt : Timestamp)
    : Except ScheduleProjectionError (CronScheduleStatus × Option Timestamp) :=
  match ((get snapshot.scheduleConfig "interval_seconds").bind asI64).filter (· > 0) with
  | none => .error .invalid
  | some interval => do
    let anchor ←
      match (get snapshot.scheduleConfig "anchor_at").bind Json.asStr with
      | some anchor => lib.parseUtc anchor
      | none => .ok snapshot.createdAt
    let anchor ← addSeconds anchor snapshot.staggerSeconds
    let next ← nextIntervalFire anchor interval observedAt
    return (.active, some next)

def projectCron (snapshot : CronScheduleSnapshot F) (observedAt : Timestamp)
    : Except ScheduleProjectionError (CronScheduleStatus × Option Timestamp) := do
  let expression ← requiredString snapshot.scheduleConfig "expr"
  let timezone := ((get snapshot.scheduleConfig "timezone").bind Json.asStr).getD snapshot.timezone
  let searchAt ← addSeconds observedAt (-snapshot.staggerSeconds)
  match lib.findNextOccurrence expression timezone searchAt with
  | none => .error .invalid
  | some next => do
    let next ← addSeconds next snapshot.staggerSeconds
    return (.active, some next)

def projectSchedule (snapshot : CronScheduleSnapshot F) (observedAt : Timestamp)
    : Except ScheduleProjectionError CronScheduleProjection :=
  let scheduleFingerprint := lib.scheduleFingerprint snapshot
  if !snapshot.enabled then
    .ok { status := .disabled, scheduleFingerprint, nextFireAt := none }
  else if snapshot.staggerSeconds < 0 then
    .error .invalid
  else do
    let (status, nextFireAt) ←
      match snapshot.scheduleType with
      | "at" => lib.projectAt snapshot observedAt
      | "every" => lib.projectEvery snapshot observedAt
      | "cron" => lib.projectCron snapshot observedAt
      | _ => .error .invalid
    return { status, scheduleFingerprint, nextFireAt }

end ScheduleLibrary

def isAsciiHexdigit (c : Char) : Bool :=
  c.isDigit || ('a' ≤ c && c ≤ 'f') || ('A' ≤ c && c ≤ 'F')

def fingerprintIsSha256 (fingerprint : String) : Bool :=
  fingerprint.utf8ByteSize = 64 && fingerprint.toList.all isAsciiHexdigit

namespace CronScheduleProjection

def validate (projection : CronScheduleProjection) : Bool :=
  let cursorMatchesStatus :=
    match projection.status with
    | .active => projection.nextFireAt.isSome
    | .disabled | .exhausted => projection.nextFireAt.isNone
  fingerprintIsSha256 projection.scheduleFingerprint && cursorMatchesStatus

end CronScheduleProjection

end Cron
end MemStack
