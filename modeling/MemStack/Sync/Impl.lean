import MemStack.Util.PrefixLog

/-!
This module contains the local-first sync algorithm of the core crate (`sync.rs`): a deduplicated
record log with a version vector, the exchange of deltas between two replicas and the last-writer-wins
view of a log.
-/

namespace MemStack
namespace Sync

open Std OrdMap

structure ChangeEvent where
  entity : String
  entityId : String
  op : String
  version : Nat
  atMs : Int
  deriving DecidableEq, Repr

structure SyncRecord where
  replicaId : String
  seq : Nat
  event : ChangeEvent
  deriving DecidableEq, Repr

abbrev VersionVector := ExtTreeMap String Nat

namespace VersionVector

def seen (vv : VersionVector) (replicaId : String) : Nat :=
  vv[replicaId]?.getD 0

end VersionVector

def key (event : ChangeEvent) : String × String :=
  (event.entity, event.entityId)

/--
What two records of one key are compared by: `version`, then `at_ms`, then `replica_id`, then `seq`.
-/
def rank (r : SyncRecord) : Nat ×ₗ Int ×ₗ String ×ₗ Nat :=
  toLex (r.event.version, toLex (r.event.atMs, toLex (r.replicaId, r.seq)))

def wins (a b : SyncRecord) : Bool :=
  rank b < rank a

structure Replica where
  id : String
  log : ExtTreeMap (String × Nat) SyncRecord cmpPair
  vv : VersionVector
  nextSeq : Nat

namespace Replica

def new (id : String) : Replica :=
  { id, log := ∅, vv := ∅, nextSeq := 1 }

def bumpVv (r : Replica) (replicaId : String) (seq : Nat) : Replica :=
  { r with
    vv := r.vv.alter replicaId fun entry =>
      let entry := entry.getD 0
      some (if seq > entry then seq else entry)
  }

def applyLocal (r : Replica) (event : ChangeEvent) : Replica × SyncRecord :=
  let seq := r.nextSeq
  let record := { replicaId := r.id, seq, event }
  let r := { r with nextSeq := r.nextSeq + 1, log := r.log.insert (r.id, seq) record }
  (r.bumpVv r.id seq, record)

def deltaSince (r : Replica) (theirVv : VersionVector) : List SyncRecord :=
  (values r.log).filter fun rec => rec.seq > theirVv.seen rec.replicaId

def mergeOne (r : Replica) (rec : SyncRecord) : Replica :=
  let r := r.bumpVv rec.replicaId rec.seq
  { r with log := r.log.insertIfNew (rec.replicaId, rec.seq) rec }

def merge (r : Replica) (incoming : List SyncRecord) : Replica :=
  incoming.foldl mergeOne r

def challenge (winners : ExtTreeMap (String × String) SyncRecord cmpPair) (r : SyncRecord)
    : ExtTreeMap (String × String) SyncRecord cmpPair :=
  winners.alter (key r.event) fun
    | some cur => some (if wins r cur then r else cur)
    | none => some r

def viewOf (records : List SyncRecord) : ExtTreeMap (String × String) ChangeEvent cmpPair :=
  (records.foldl challenge ∅).map fun _ r => r.event

def view (r : Replica) : ExtTreeMap (String × String) ChangeEvent cmpPair :=
  viewOf (values r.log)

end Replica

/--
Bidirectional reconcile. Both deltas are computed before either side merges.
-/
def reconcile (a b : Replica) : Replica × Replica :=
  let toB := a.deltaSince b.vv
  let toA := b.deltaSince a.vv
  (a.merge toA, b.merge toB)

end Sync
end MemStack
