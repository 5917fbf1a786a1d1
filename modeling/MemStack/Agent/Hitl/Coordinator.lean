import MemStack.Util.Dict
import MemStack.Util.Machine

/-!
This module contains the coordinator of requests to a human (`agent/hitl/coordinator.py`). A step is what
a call does up to its next await. What persistence comes to, when timers fire and which responses are
accepted are inputs of the steps. Of the global registry, the ids are kept that it maps to this coordinator.
-/

namespace MemStack
namespace Agent
namespace Hitl

inductive HITLType where
  | clarification
  | decision
  | envVar
  | permission
  | a2uiAction
  deriving DecidableEq, Repr

inductive ResolveResult where
  | resolved
  | notFound
  | rejected
  deriving DecidableEq, Repr

-- The response of a user, with the truth values of its `timeout` and its `cancelled`.
structure Response (β : Type) where
  timeout : Bool := false
  cancelled : Bool := false
  data : β
  deriving DecidableEq, Repr

inductive Future (α : Type) where
  | pending
  | result (a : α)
  | cancelled
  deriving DecidableEq, Repr

def Future.isPending {α : Type} : Future α → Bool
  | .pending => true
  | _ => false

structure PendingRequest (β : Type) where
  requestId : String
  future : Future (Response β) := .pending
  completionDone : Bool := false
  deriving DecidableEq, Repr

-- How `wait_for_response` ends. The values are those that the strategy of the type extracts.
inductive Outcome (β : Type) where
  | response (response : Response β)
  | typeDefault (hitlType : HITLType)
  | extracted (hitlType : HITLType) (response : Response β)
  | timeoutError
  | cancelledError
  | valueError
  | persistenceError
  deriving DecidableEq, Repr

def Outcome.raises {β : Type} : Outcome β → Bool
  | .timeoutError => true
  | .cancelledError => true
  | .valueError => true
  | .persistenceError => true
  | _ => false

def received {β : Type} (hitlType : HITLType) (response : Response β) : Outcome β :=
  if response.timeout then
    if hitlType = .envVar then .response response else .timeoutError
  else if response.cancelled then
    if hitlType = .envVar then .response response else .typeDefault hitlType
  else
    .extracted hitlType response

-- A call of `wait_for_response` by the number of its request: it waits for the future, its timer has
-- cancelled the wait and the timeout is being recorded, or it has ended.
inductive Wait (β : Type) where
  | waiting (n : Nat) (hitlType : HITLType)
  | expired (n : Nat)
  | ended (n : Option Nat) (outcome : Outcome β)
  deriving DecidableEq, Repr

-- The requests are the objects that the futures belong to, which outlive their entries. The last fields
-- remember what was answered to `resolve`, what the futures gave to waiting tasks, and which requests had
-- a wait raise, were completed or were cancelled.
structure Coordinator (β : Type) where
  requests : List (PendingRequest β) := []
  pending : Dict String Nat := .empty
  registry : List String := []
  preparing : List String := []
  waits : List (Wait β) := []
  completing : List String := []
  completionWaits : List (Nat × Bool) := []
  acknowledged : List Nat := []
  delivered : List (Nat × Response β) := []
  finished : List Nat := []

inductive Request (β : Type) where
  | prepareRequest (requestId : String)
  | persisted (call : Nat) (ok : Bool)
  | waitForResponse (requestId : String) (hitlType : HITLType)
  | wake (call : Nat)
  | expire (call : Nat)
  | timeoutMarked (call : Nat) (ok : Bool)
  | resolve (requestId : String) (response : Response β) (accepted : Bool)
  | completeRequest (requestId : String)
  | completedMarked (call : Nat) (ok : Bool)
  | cancelRequestIfPending (requestId : String)
  | cancelAll (reason : β)
  | waitForCompletion (requestId : String) (timed : Bool)
  | expireCompletion (call : Nat)

namespace Coordinator

variable {β : Type} (c : Coordinator β)

def future (n : Nat) : Option (Future (Response β)) :=
  c.requests[n]?.map (·.future)

def isPending (n : Nat) : Bool :=
  (c.future n).any (·.isPending)

def completionDone (n : Nat) : Bool :=
  c.requests[n]?.any (·.completionDone)

def setFuture (n : Nat) (future : Future (Response β)) : Coordinator β :=
  { c with requests := c.requests.modify n fun request => { request with future } }

def setCompletion (n : Nat) : Coordinator β :=
  { c with requests := c.requests.modify n fun request => { request with completionDone := true } }

def cleanupPendingRequest (id : String) : Coordinator β :=
  { c with pending := c.pending.erase id, registry := c.registry.filter (· ≠ id) }

def prepareRequest (id : String) : Coordinator β :=
  { c with
    requests := c.requests ++ [{ requestId := id }]
    pending := c.pending.set id c.requests.length
    registry := c.registry.insert id
    preparing := c.preparing ++ [id]
  }

def persisted (call : Nat) (ok : Bool) : Coordinator β :=
  match c.preparing[call]? with
  | some id =>
    let c := { c with preparing := c.preparing.eraseIdx call }
    if ok then c else c.cleanupPendingRequest id
  | none => c

def settled (n : Nat) (hitlType : HITLType) : Future (Response β) → Coordinator β × Outcome β
  | .result response =>
    let outcome := received hitlType response
    ({ c with
        delivered := c.delivered ++ [(n, response)]
        finished := if outcome.raises then c.finished ++ [n] else c.finished },
      outcome)
  | _ => ({ c with finished := c.finished ++ [n] }, .cancelledError)

def waitForResponse (id : String) (hitlType : HITLType) : Coordinator β :=
  match c.pending.get id with
  | none => { c with waits := c.waits ++ [.ended none .valueError] }
  | some n =>
    match c.future n with
    | none => c
    | some .pending => { c with waits := c.waits ++ [.waiting n hitlType] }
    | some future =>
      let (c, outcome) := c.settled n hitlType future
      { c with waits := c.waits ++ [.ended (some n) outcome] }

def wake (call : Nat) : Coordinator β :=
  match c.waits[call]? with
  | some (.waiting n hitlType) =>
    match c.future n with
    | none => c
    | some .pending => c
    | some future =>
      let (c, outcome) := c.settled n hitlType future
      { c with waits := c.waits.set call (.ended (some n) outcome) }
  | _ => c

def expire (call : Nat) : Coordinator β :=
  match c.waits[call]? with
  | some (.waiting n _) =>
    let c := { c with waits := c.waits.set call (.expired n) }
    if c.isPending n then c.setFuture n .cancelled else c
  | _ => c

def timeoutMarked (call : Nat) (ok : Bool) : Coordinator β :=
  match c.waits[call]? with
  | some (.expired n) =>
    let outcome := if ok then .timeoutError else .persistenceError
    let c := { c with waits := c.waits.set call (.ended (some n) outcome), finished := c.finished ++ [n] }
    match c.requests[n]? with
    | some request => if ok then c.cleanupPendingRequest request.requestId else c
    | none => c
  | _ => c

def resolve (id : String) (response : Response β) (accepted : Bool) : Coordinator β × ResolveResult :=
  match c.pending.get id with
  | none => (c, .notFound)
  | some n =>
    if c.isPending n then
      if accepted then
        ({ c.setFuture n (.result response) with acknowledged := c.acknowledged ++ [n] }, .resolved)
      else
        (c, .rejected)
    else if c.completionDone n then
      (c, .rejected)
    else
      ({ c with acknowledged := c.acknowledged ++ [n] }, .resolved)

def completeRequest (id : String) : Coordinator β :=
  { c with completing := c.completing ++ [id] }

def completedMarked (call : Nat) (ok : Bool) : Coordinator β :=
  match c.completing[call]? with
  | none => c
  | some id =>
    let c := { c with completing := c.completing.eraseIdx call }
    match c.pending.get id with
    | none => if ok then c.cleanupPendingRequest id else c
    | some n =>
      let c := { c with finished := c.finished ++ [n] }
      if ok then (c.cleanupPendingRequest id).setCompletion n else c

def settle (future : Future (Response β)) (n : Nat) : Coordinator β :=
  let c := if c.isPending n then c.setFuture n future else c
  { c.setCompletion n with finished := c.finished ++ [n] }

def cancelRequestIfPending (id : String) : Coordinator β :=
  if id = "" then
    c
  else
    match c.pending.get id with
    | none => c.cleanupPendingRequest id
    | some n => (c.cleanupPendingRequest id).settle .cancelled n

def cancelAll (reason : β) : Coordinator β :=
  let ids := c.pending.keys
  let response : Response β := { cancelled := true, data := reason }
  let c := c.pending.values.foldl (fun c n => c.settle (.result response) n) c
  { c with pending := .empty, registry := c.registry.filter (· ∉ ids) }

def waitForCompletion (id : String) (timed : Bool) : Coordinator β :=
  match c.pending.get id with
  | none => c
  | some n =>
    if c.completionDone n then c
    else { c with completionWaits := c.completionWaits ++ [(n, timed)] }

def expireCompletion (call : Nat) : Coordinator β :=
  match c.completionWaits[call]? with
  | some (n, true) => c.setCompletion n
  | _ => c

def step (c : Coordinator β) : Request β → Coordinator β × Option ResolveResult
  | .prepareRequest id => (c.prepareRequest id, none)
  | .persisted call ok => (c.persisted call ok, none)
  | .waitForResponse id hitlType => (c.waitForResponse id hitlType, none)
  | .wake call => (c.wake call, none)
  | .expire call => (c.expire call, none)
  | .timeoutMarked call ok => (c.timeoutMarked call ok, none)
  | .resolve id response accepted =>
    ((c.resolve id response accepted).1, some (c.resolve id response accepted).2)
  | .completeRequest id => (c.completeRequest id, none)
  | .completedMarked call ok => (c.completedMarked call ok, none)
  | .cancelRequestIfPending id => (c.cancelRequestIfPending id, none)
  | .cancelAll reason => (c.cancelAll reason, none)
  | .waitForCompletion id timed => (c.waitForCompletion id timed, none)
  | .expireCompletion call => (c.expireCompletion call, none)

end Coordinator

end Hitl
end Agent
end MemStack
