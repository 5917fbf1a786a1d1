import MemStack.Util.Dict
import MemStack.Util.Json
import MemStack.Util.Machine

/-!
This module contains the updates of one request to a human in the database
(`sql_hitl_request_repository.py`). A step is one statement, a commit or a rollback. A transaction that has
updated the row keeps it locked, and reads see what is committed.
-/

namespace MemStack
namespace Agent
namespace Hitl

inductive HITLRequestStatus where
  | pending
  | answered
  | processing
  | completed
  | timeout
  | cancelled
  deriving DecidableEq

def HITLRequestStatus.isFinal : HITLRequestStatus → Bool
  | .completed => true
  | .timeout => true
  | .cancelled => true
  | _ => false

structure RequestLibrary (F : Type) where
  isoformat : Int → String
  jsonText : Json F → String
  textBefore : String → String → Bool

abbrev Metadata (F : Type) := Dict String (Json F)

structure HITLRequestRecord (F : Type) where
  status : HITLRequestStatus := .pending
  response : Option String := none
  responseMetadata : Option (Metadata F) := none
  answeredAt : Option Int := none
  expiresAt : Option Int

-- The ids of workers are never empty (`local-resume-<pid>`).
@[ext]
structure WorkerId where
  id : String
  nonempty : id ≠ ""

instance : DecidableEq WorkerId :=
  fun _ _ => decidable_of_iff _ WorkerId.ext_iff.symm

section Metadata

variable {F : Type} (lib : RequestLibrary F)

-- `->>`, the text of a value.
def asString : Json F → Option String
  | .str s => some s
  | .null => none
  | value => some (lib.jsonText value)

def metadataText (metadata : Option (Metadata F)) (key : String) : Option String :=
  ((metadata.getD .empty).get key).bind (asString lib)

def mergeProcessingLeaseMetadata (metadata : Option (Metadata F)) (leaseTime : Int) (leaseOwner : Option String)
    : Metadata F :=
  let metadata := metadata.getD .empty
  let metadata := metadata.set "processing_heartbeat_at" (.str (lib.isoformat leaseTime))
  let metadata :=
    if (metadata.get "processing_started_at").isSome then metadata
    else metadata.set "processing_started_at" (.str (lib.isoformat leaseTime))
  match leaseOwner with
  | none => metadata
  | some owner => if owner = "" then metadata else metadata.set "processing_owner" (.str owner)

def clearProcessingLeaseMetadata (metadata : Option (Metadata F)) : Option (Metadata F) :=
  metadata.bind fun metadata =>
    let metadata := ((metadata.erase "processing_started_at").erase "processing_heartbeat_at").erase "processing_owner"
    if metadata.entries.isEmpty then none else some metadata

-- The owner as `refresh_processing_lease` reads it.
def currentOwner (metadata : Option (Metadata F)) : Option String :=
  match (metadata.getD .empty).get "processing_owner" with
  | some (.str owner) => if owner = "" then none else some owner
  | _ => none

end Metadata

def pendingAuthorityRevision : Int := 1

def isIdempotencyKey (text : String) : Bool :=
  1 ≤ text.length && text.length ≤ 255 && text.toList.all fun c => '!' ≤ c && c ≤ '~'

def isDigest (text : String) : Bool :=
  text.length == 64 && text.toList.all fun c => ('0' ≤ c && c ≤ '9') || ('a' ≤ c && c ≤ 'f')

def mergeHitlResponseContractMetadata {F : Type} (metadata : Option (Metadata F)) (expectedRevision : Int)
    (idempotencyKey payloadDigest : String)
    : Option (Metadata F) :=
  if expectedRevision ≠ pendingAuthorityRevision then none
  else if ¬isIdempotencyKey idempotencyKey then none
  else if ¬isDigest payloadDigest then none
  else
    some ((metadata.getD .empty).set "_hitl_response_contract" (.dict [
      ("contract_version", .int 2),
      ("expected_revision", .int expectedRevision),
      ("idempotency_key", .str idempotencyKey),
      ("payload_digest", .str payloadDigest)]))

inductive Update (F : Type) where
  | updateResponse (response : String) (metadata : Option (Metadata F)) (now : Int)
  | claimResponseV2 (response : String) (metadata : Option (Metadata F)) (expectedRevision : Int)
      (idempotencyKey payloadDigest : String) (now : Int)
  | reopenPending
  | markTimeout (defaultResponse : Option String)
  | markCancelled
  | markCompleted (worker : WorkerId)
  | claimForProcessing (worker : WorkerId) (now : Int)
  | revertProcessing (worker : WorkerId)
  | recoverStale (leaseBefore : Int) (leaseOwner : Option String)

inductive LeaseUpdate where
  | clear
  | merge (now : Int) (worker : WorkerId)

inductive LeaseEvent where
  | claimed (worker : WorkerId)
  | reverted
  | completed
  deriving DecidableEq

inductive StoreReply where
  | waits
  | matched (row : Bool)
  | raised
  | ended
  deriving DecidableEq

namespace Update

variable {F : Type} (lib : RequestLibrary F)

def notExpired (row : HITLRequestRecord F) (now : Int) : Bool :=
  match row.expiresAt with
  | none => true
  | some expiresAt => now < expiresAt

def revertible (row : HITLRequestRecord F) (leaseBefore : Option Int) (leaseOwner : Option String) : Bool :=
  row.status = .processing &&
    (match leaseOwner with
      | none => true
      | some owner =>
        match metadataText lib row.responseMetadata "processing_owner" with
        | none => true
        | some current => current = owner) &&
    match leaseBefore with
    | none => true
    | some before =>
      match (metadataText lib row.responseMetadata "processing_heartbeat_at").or
          (metadataText lib row.responseMetadata "processing_started_at") with
      | none => true
      | some lease => lib.textBefore lease (lib.isoformat before)

def condition (row : HITLRequestRecord F) : Update F → Bool
  | .updateResponse _ _ now => row.status = .pending && notExpired row now
  | .claimResponseV2 _ _ _ _ _ now => row.status = .pending && notExpired row now
  | .reopenPending => row.status = .answered
  | .markTimeout _ => row.status = .pending
  | .markCancelled => row.status = .pending
  | .markCompleted worker =>
    row.status = .processing && metadataText lib row.responseMetadata "processing_owner" = some worker.id
  | .claimForProcessing _ _ => row.status = .answered
  | .revertProcessing worker => revertible lib row none (some worker.id)
  | .recoverStale leaseBefore leaseOwner => revertible lib row (some leaseBefore) leaseOwner

def assign (row : HITLRequestRecord F) : Update F → HITLRequestRecord F
  | .updateResponse response metadata now =>
    { row with status := .answered, response := some response, responseMetadata := metadata, answeredAt := some now }
  | .claimResponseV2 response metadata expectedRevision idempotencyKey payloadDigest now =>
    { row with
      status := .answered
      response := some response
      responseMetadata := mergeHitlResponseContractMetadata metadata expectedRevision idempotencyKey payloadDigest
      answeredAt := some now }
  | .reopenPending => { row with status := .pending, response := none, responseMetadata := none, answeredAt := none }
  | .markTimeout defaultResponse =>
    { row with
      status := .timeout
      response := defaultResponse
      responseMetadata :=
        match defaultResponse with
        | none => none
        | some text => if text = "" then none else some (Dict.empty.set "is_default" (.bool true)) }
  | .markCancelled => { row with status := .cancelled }
  | .markCompleted _ => { row with status := .completed }
  | .claimForProcessing _ _ => { row with status := .processing }
  | .revertProcessing _ => { row with status := .answered }
  | .recoverStale _ _ => { row with status := .answered }

def next : Update F → Option LeaseUpdate
  | .markCompleted _ => some .clear
  | .claimForProcessing worker now => some (.merge now worker)
  | .revertProcessing _ => some .clear
  | .recoverStale _ _ => some .clear
  | _ => none

def event : Update F → Option LeaseEvent
  | .markCompleted _ => some .completed
  | .claimForProcessing worker _ => some (.claimed worker)
  | .revertProcessing _ => some .reverted
  | .recoverStale _ _ => some .reverted
  | _ => none

def refusal : Update F → Option StoreReply
  | .claimResponseV2 _ metadata expectedRevision idempotencyKey payloadDigest _ =>
    if expectedRevision ≠ pendingAuthorityRevision then some (.matched false)
    else
      match mergeHitlResponseContractMetadata metadata expectedRevision idempotencyKey payloadDigest with
      | none => some .raised
      | some _ => none
  | _ => none

end Update

def LeaseUpdate.apply {F : Type} (lib : RequestLibrary F) (row : HITLRequestRecord F)
    : LeaseUpdate → HITLRequestRecord F
  | .clear => { row with responseMetadata := clearProcessingLeaseMetadata row.responseMetadata }
  | .merge now worker =>
    { row with responseMetadata := some (mergeProcessingLeaseMetadata lib row.responseMetadata now (some worker.id)) }

structure Transaction (F : Type) where
  row : HITLRequestRecord F
  next : Option LeaseUpdate
  event : Option LeaseEvent

structure RequestStore (F : Type) where
  row : HITLRequestRecord F
  lock : Option (Transaction F) := none
  -- The refreshes that have read the row, with the metadata that they will write.
  refreshing : List (WorkerId × Metadata F) := []
  log : List LeaseEvent := []

inductive StoreRequest (F : Type) where
  | update (update : Update F)
  | updateLease
  | readForRefresh (worker : WorkerId) (now : Int)
  | writeRefresh (n : Nat)
  | commit
  | rollback

namespace RequestStore

variable {F : Type} (lib : RequestLibrary F) (s : RequestStore F)

def update (update : Update F) : RequestStore F × StoreReply :=
  match update.refusal with
  | some reply => (s, reply)
  | none =>
    match s.lock with
    | some _ => (s, .waits)
    | none =>
      if update.condition lib s.row then
        ({ s with lock := some ⟨update.assign s.row, update.next, update.event⟩ }, .matched true)
      else (s, .matched false)

def updateLease : RequestStore F × StoreReply :=
  match s.lock with
  | some ⟨row, some next, event⟩ => ({ s with lock := some ⟨next.apply lib row, none, event⟩ }, .matched true)
  | _ => (s, .ended)

def readForRefresh (worker : WorkerId) (now : Int) : RequestStore F × StoreReply :=
  if s.row.status ≠ .processing then (s, .matched false)
  else
    match currentOwner s.row.responseMetadata with
    | none => reads worker now
    | some owner => if owner = worker.id then reads worker now else (s, .matched false)
where
  reads (worker : WorkerId) (now : Int) : RequestStore F × StoreReply :=
    let metadata := mergeProcessingLeaseMetadata lib s.row.responseMetadata now (some worker.id)
    ({ s with refreshing := s.refreshing ++ [(worker, metadata)] }, .matched true)

def writeRefresh (n : Nat) : RequestStore F × StoreReply :=
  match s.refreshing[n]? with
  | none => (s, .ended)
  | some (_, metadata) =>
    match s.lock with
    | some _ => (s, .waits)
    | none =>
      ({ s with
          lock := some ⟨{ s.row with responseMetadata := some metadata }, none, none⟩
          refreshing := s.refreshing.eraseIdx n },
        .matched true)

def commit : RequestStore F × StoreReply :=
  match s.lock with
  | some ⟨row, none, event⟩ => ({ s with row, lock := none, log := s.log ++ event.toList }, .ended)
  | _ => (s, .ended)

def rollback : RequestStore F × StoreReply :=
  ({ s with lock := none }, .ended)

def step (s : RequestStore F) : StoreRequest F → RequestStore F × StoreReply
  | .update update => s.update lib update
  | .updateLease => s.updateLease lib
  | .readForRefresh worker now => s.readForRefresh lib worker now
  | .writeRefresh n => s.writeRefresh n
  | .commit => s.commit
  | .rollback => s.rollback

def created (expiresAt : Option Int) : RequestStore F :=
  { row := { expiresAt } }

end RequestStore

end Hitl
end Agent
end MemStack
