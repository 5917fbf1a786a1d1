import MemStack.Agent.Hitl.RequestStore

/-!
This module contains the processes that resume one answered request from its stream entry
(`local_resume_consumer.py`). A step is what a handler does up to its next await. An entry that is not
acknowledged may be delivered again to any process at any time, and a process may crash at any time.
-/

namespace MemStack
namespace Agent
namespace Hitl

def staleProcessingIdleMs : Int := 300000

inductive StatusDecision where
  | drop
  | leave
  | recover
  | resume
  deriving DecidableEq

def handleRequestStatus (status : HITLRequestStatus) (pendingIdleMs : Option Int) (leaseStale : Bool)
    : StatusDecision :=
  match status with
  | .completed => .drop
  | .cancelled => .drop
  | .timeout => .drop
  | .pending => .drop
  | .answered => .resume
  | .processing =>
    match pendingIdleMs with
    | none => .leave
    | some idle => if idle < staleProcessingIdleMs ∨ leaseStale = false then .leave else .recover

section Processes

variable (P : Type)

inductive LiveRequest where
  | absent
  | waiting
  | delivered
  deriving DecidableEq

inductive Stage where
  | loading (pendingIdleMs : Option Int)
  | recovering (leaseOwner : Option P)
  | resuming
  | claiming
  | continuing
  | waiting
  | reopening
  | done
  deriving DecidableEq

structure ResumeTask where
  process : P
  stage : Stage P
  deriving DecidableEq

inductive Resumption where
  | handed (process : P)
  | continued (process : P)
  deriving DecidableEq

structure ResumeWorld where
  status : HITLRequestStatus := .answered
  processingOwner : Option P := none
  acknowledged : Bool := false
  live : P → LiveRequest
  tasks : List (ResumeTask P) := []
  -- The resumptions that were neither given up nor reverted to be tried again.
  resumed : List (Resumption P) := []

inductive ResumeRequest where
  | deliver (process : P) (pendingIdleMs : Option Int)
  | load (n : Nat) (leaseStale : Bool)
  -- `leaseBefore` says whether the stored lease is older than the given time.
  | recover (n : Nat) (leaseBefore : Bool)
  | resolve (n : Nat) (accepted : Bool)
  | reopen (n : Nat)
  | claim (n : Nat)
  | continueCompleted (n : Nat)
  | continueFailed (n : Nat)
  | markLiveCompleted (process : P)
  | cleanupLive (process : P)
  | released (n : Nat)
  | expireLive (process : P)
  | answer
  | crash (process : P)

end Processes

namespace ResumeWorld

variable {P : Type} [DecidableEq P] (s : ResumeWorld P)

def setStage (n : Nat) (stage : Stage P) : ResumeWorld P :=
  { s with tasks := s.tasks.modify n fun task => { task with stage } }

def setLive (process : P) (state : LiveRequest) : ResumeWorld P :=
  { s with live := Function.update s.live process state }

def ack (n : Nat) : ResumeWorld P :=
  { s.setStage n .done with acknowledged := true }

def deliver (process : P) (pendingIdleMs : Option Int) : ResumeWorld P :=
  if s.acknowledged then s else { s with tasks := s.tasks ++ [⟨process, .loading pendingIdleMs⟩] }

def load (n : Nat) (leaseStale : Bool) : ResumeWorld P :=
  match s.tasks[n]? with
  | some ⟨_, .loading pendingIdleMs⟩ =>
    match handleRequestStatus s.status pendingIdleMs leaseStale with
    | .drop => s.ack n
    | .leave => s.setStage n .done
    | .recover => s.setStage n (.recovering s.processingOwner)
    | .resume => s.setStage n .resuming
  | _ => s

def revertToAnswered (leaseOwner : Option P) (leaseBefore : Bool) : Option (ResumeWorld P) :=
  if s.status = .processing ∧ (leaseOwner = none ∨ s.processingOwner = none ∨ s.processingOwner = leaseOwner) ∧
      leaseBefore = true then
    some { s with
      status := .answered
      processingOwner := none
      resumed := s.resumed.filter fun | .continued _ => false | .handed _ => true }
  else none

def recover (n : Nat) (leaseBefore : Bool) : ResumeWorld P :=
  match s.tasks[n]? with
  | some ⟨_, .recovering leaseOwner⟩ =>
    match s.revertToAnswered leaseOwner leaseBefore with
    | some s => s.setStage n .resuming
    | none => s.setStage n .done
  | _ => s

-- `resolve_by_request_id`. A response that was delivered before is waited for again.
def resolve (n : Nat) (accepted : Bool) : ResumeWorld P :=
  match s.tasks[n]? with
  | some ⟨process, .resuming⟩ =>
    match s.live process with
    | .absent => s.setStage n .claiming
    | .delivered => s.setStage n .waiting
    | .waiting =>
      if accepted then
        { (s.setLive process .delivered).setStage n .waiting with resumed := s.resumed ++ [.handed process] }
      else s.setStage n .reopening
  | _ => s

def reopen (n : Nat) : ResumeWorld P :=
  match s.tasks[n]? with
  | some ⟨_, .reopening⟩ =>
    if s.status = .answered then { s with status := .pending }.ack n else s.setStage n .done
  | _ => s

-- `claim_for_processing`, on which the fallback relies.
def claim (n : Nat) : ResumeWorld P :=
  match s.tasks[n]? with
  | some ⟨process, .claiming⟩ =>
    if s.status = .answered then
      { s.setStage n .continuing with
        status := .processing
        processingOwner := some process
        resumed := s.resumed ++ [.continued process] }
    else s.setStage n .done
  | _ => s

def continueCompleted (n : Nat) : ResumeWorld P :=
  match s.tasks[n]? with
  | some ⟨process, .continuing⟩ =>
    if s.status = .processing ∧ s.processingOwner = some process then { s with status := .completed }.ack n
    else s.ack n
  | _ => s

def continueFailed (n : Nat) : ResumeWorld P :=
  match s.tasks[n]? with
  | some ⟨process, .continuing⟩ => ((s.revertToAnswered (some process) true).getD s).setStage n .done
  | _ => s

def markLiveCompleted (process : P) : ResumeWorld P :=
  if s.live process = .delivered ∧ (s.status = .answered ∨ s.status = .processing) then
    { s with status := .completed }
  else s

def giveUp (process : P) : ResumeWorld P :=
  if s.live process = .delivered ∧ s.status ≠ .completed then
    { s.setLive process .absent with resumed := s.resumed.filter (· ≠ .handed process) }
  else s.setLive process .absent

def released (n : Nat) : ResumeWorld P :=
  match s.tasks[n]? with
  | some ⟨process, .waiting⟩ => if s.live process = .absent then s.ack n else s
  | _ => s

def expireLive (process : P) : ResumeWorld P :=
  if s.live process = .waiting then
    { s.setLive process .absent with status := if s.status = .pending then .timeout else s.status }
  else s

def answer : ResumeWorld P :=
  if s.status = .pending then { s with status := .answered, acknowledged := false } else s

def crash (process : P) : ResumeWorld P :=
  { s.giveUp process with
    tasks := s.tasks.map fun task => if task.process = process then { task with stage := .done } else task }

def step (s : ResumeWorld P) : ResumeRequest P → ResumeWorld P × Unit
  | .deliver process pendingIdleMs => (s.deliver process pendingIdleMs, ())
  | .load n leaseStale => (s.load n leaseStale, ())
  | .recover n leaseBefore => (s.recover n leaseBefore, ())
  | .resolve n accepted => (s.resolve n accepted, ())
  | .reopen n => (s.reopen n, ())
  | .claim n => (s.claim n, ())
  | .continueCompleted n => (s.continueCompleted n, ())
  | .continueFailed n => (s.continueFailed n, ())
  | .markLiveCompleted process => (s.markLiveCompleted process, ())
  | .cleanupLive process => (s.giveUp process, ())
  | .released n => (s.released n, ())
  | .expireLive process => (s.expireLive process, ())
  | .answer => (s.answer, ())
  | .crash process => (s.crash process, ())

def answered (waits : P → Bool) : ResumeWorld P :=
  { live := fun process => if waits process then .waiting else .absent }

end ResumeWorld

end Hitl
end Agent
end MemStack
