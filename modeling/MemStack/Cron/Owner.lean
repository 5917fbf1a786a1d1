import MemStack.Port.Timestamp
import MemStack.Util.Text

/-!
This module contains the ownership lease of the cron scheduler (`cron_scheduler_owner_repo.rs`). Each
statement is one step. Of the table of owners only the row of the scope `global` is ever used.
-/

namespace MemStack
namespace Cron

inductive OwnerKind where
  | off
  | python
  | rust
  deriving DecidableEq, Repr

structure CronSchedulerOwner where
  ownerKind : OwnerKind
  ownerId : Option String
  ownerEpoch : Int
  leaseToken : Option String
  leaseExpiresAt : Option Timestamp
  acquiredAt : Option Timestamp
  updatedAt : Timestamp
  deriving DecidableEq, Repr

def globalCronSchedulerScope : String :=
  "global"

structure CronSchedulerLease where
  scopeId : String
  ownerId : String
  ownerEpoch : Int
  leaseToken : String
  leaseExpiresAt : Timestamp
  acquiredAt : Timestamp
  deriving DecidableEq, Repr

inductive CronSchedulerOwnerError where
  | invalidLease
  deriving DecidableEq, Repr

def positiveSeconds (seconds : Int) : Int :=
  min (max seconds 1) 2147483647

namespace CronSchedulerLease

def isStructurallyValid (lease : CronSchedulerLease) : Bool :=
  lease.scopeId == globalCronSchedulerScope &&
    Text.trim lease.ownerId != "" &&
    lease.ownerEpoch > 0 &&
    Text.trim lease.leaseToken != "" &&
    lease.leaseExpiresAt > lease.acquiredAt

def validate (lease : CronSchedulerLease) : Except CronSchedulerOwnerError Unit :=
  if lease.isStructurallyValid && lease.ownerId.utf8ByteSize ≤ 255 && lease.leaseToken.utf8ByteSize ≤ 255 then
    .ok ()
  else
    .error .invalidLease

end CronSchedulerLease

namespace CronSchedulerOwner

def tryFrom (row : CronSchedulerOwner) : Except CronSchedulerOwnerError CronSchedulerLease :=
  match row.ownerId, row.leaseToken, row.leaseExpiresAt, row.acquiredAt with
  | some ownerId, some leaseToken, some leaseExpiresAt, some acquiredAt =>
    let lease : CronSchedulerLease :=
      { scopeId := globalCronSchedulerScope, ownerId, ownerEpoch := row.ownerEpoch, leaseToken, leaseExpiresAt,
        acquiredAt }
    do
      lease.validate
      return lease
  | _, _, _, _ => .error .invalidLease

def carries (row : CronSchedulerOwner) (lease : CronSchedulerLease) : Bool :=
  lease.scopeId = globalCronSchedulerScope && row.ownerKind = .rust && row.ownerId = some lease.ownerId &&
    row.ownerEpoch = lease.ownerEpoch && row.leaseToken = some lease.leaseToken &&
    row.leaseExpiresAt = some lease.leaseExpiresAt

-- The condition of `IS_CURRENT_SQL`, which every statement that needs the authority repeats.
def isCurrent (row : CronSchedulerOwner) (lease : CronSchedulerLease) (now : Timestamp) : Bool :=
  row.carries lease && lease.leaseExpiresAt > now

def isFree (row : CronSchedulerOwner) (now : Timestamp) : Bool :=
  row.leaseToken.isNone || row.leaseExpiresAt.all (· ≤ now)

end CronSchedulerOwner

inductive OwnerRequest where
  | tryAcquireGlobal (ownerId : String) (leaseSeconds : Int) (now : Timestamp)
  | renew (lease : CronSchedulerLease) (leaseSeconds : Int) (now : Timestamp)
  | release (lease : CronSchedulerLease) (now : Timestamp)
  -- An administrator inserts the row or delegates it.
  | delegate (kind : OwnerKind) (now : Timestamp)
  deriving Repr

inductive OwnerReply where
  | lease (result : Except CronSchedulerOwnerError (Option CronSchedulerLease))
  | released (result : Except CronSchedulerOwnerError Bool)
  | delegated

namespace CronSchedulerOwner

def acquired (row : CronSchedulerOwner) (ownerId : String) (leaseSeconds : Int) (now : Timestamp) (txid : Nat)
    : CronSchedulerOwner :=
  { row with
    ownerId := some ownerId
    ownerEpoch := row.ownerEpoch + 1
    leaseToken := some (globalCronSchedulerScope ++ ":" ++ toString (row.ownerEpoch + 1) ++ ":" ++ toString txid)
    leaseExpiresAt := some (now + positiveSeconds leaseSeconds * Timestamp.second)
    acquiredAt := some now
    updatedAt := now }

def renewed (row : CronSchedulerOwner) (leaseSeconds : Int) (now : Timestamp) : CronSchedulerOwner :=
  { row with leaseExpiresAt := some (now + positiveSeconds leaseSeconds * Timestamp.second), updatedAt := now }

def released (row : CronSchedulerOwner) (now : Timestamp) : CronSchedulerOwner :=
  { row with ownerId := none, leaseToken := none, leaseExpiresAt := none, updatedAt := now }

def validateOwnerId (ownerId : String) : Except CronSchedulerOwnerError Unit :=
  if Text.trim ownerId = "" || ownerId.utf8ByteSize > 255 then .error .invalidLease else .ok ()

def tryAcquireGlobal (row : Option CronSchedulerOwner) (ownerId : String) (leaseSeconds : Int) (now : Timestamp)
    (txid : Nat)
    : Option CronSchedulerOwner × Except CronSchedulerOwnerError (Option CronSchedulerLease) :=
  match validateOwnerId ownerId, row with
  | .error e, row => (row, .error e)
  | .ok _, none => (none, .ok none)
  | .ok _, some row =>
    if row.ownerKind = .rust ∧ row.isFree now then
      let row := row.acquired ownerId leaseSeconds now txid
      (some row, row.tryFrom.map some)
    else
      (some row, .ok none)

def renew (row : Option CronSchedulerOwner) (lease : CronSchedulerLease) (leaseSeconds : Int) (now : Timestamp)
    : Option CronSchedulerOwner × Except CronSchedulerOwnerError (Option CronSchedulerLease) :=
  match lease.validate, row with
  | .error e, row => (row, .error e)
  | .ok _, none => (none, .ok none)
  | .ok _, some row =>
    if row.isCurrent lease now then
      let row := row.renewed leaseSeconds now
      (some row, row.tryFrom.map some)
    else
      (some row, .ok none)

def release (row : Option CronSchedulerOwner) (lease : CronSchedulerLease) (now : Timestamp)
    : Option CronSchedulerOwner × Except CronSchedulerOwnerError Bool :=
  match lease.validate, row with
  | .error e, row => (row, .error e)
  | .ok _, none => (none, .ok false)
  | .ok _, some row => if row.carries lease then (some (row.released now), .ok true) else (some row, .ok false)

def delegate (row : Option CronSchedulerOwner) (kind : OwnerKind) (now : Timestamp) : CronSchedulerOwner :=
  match row with
  | none =>
    { ownerKind := kind, ownerId := none, ownerEpoch := 0, leaseToken := none, leaseExpiresAt := none,
      acquiredAt := none, updatedAt := now }
  | some row => { row with ownerKind := kind, updatedAt := now }

def step (row : Option CronSchedulerOwner) (txid : Nat) : OwnerRequest → Option CronSchedulerOwner × OwnerReply
  | .tryAcquireGlobal ownerId leaseSeconds now =>
    let (row, result) := tryAcquireGlobal row ownerId leaseSeconds now txid
    (row, .lease result)
  | .renew lease leaseSeconds now =>
    let (row, result) := renew row lease leaseSeconds now
    (row, .lease result)
  | .release lease now =>
    let (row, result) := release row lease now
    (row, .released result)
  | .delegate kind now => (some (delegate row kind now), .delegated)

end CronSchedulerOwner

end Cron
end MemStack
