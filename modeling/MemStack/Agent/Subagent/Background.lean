import MemStack.Util.Machine
import MemStack.Util.Text

/-!
This module contains one execution of the background executor (`agent/subagent/background_executor.py`), with
its coroutine, its canceller and the orphan sweeps. A step is what one of them does up to its next await. An
await that does not suspend is one that is gone on with at once. What the process of the agent comes to, what
Redis answers and whether the time is up are inputs of the steps.
-/

namespace MemStack
namespace Agent
namespace Subagent

inductive SubAgentStatus where
  | pending
  | running
  | completed
  | failed
  | cancelled
  deriving DecidableEq, Repr

def SubAgentStatus.isTerminal : SubAgentStatus → Bool
  | .pending => false
  | .running => false
  | _ => true

inductive TerminalEvent where
  | subagentCompleted
  | subagentFailed
  | subagentKilled
  deriving DecidableEq, Repr

structure Config where
  redis : Bool
  orphanSweeper : Bool
  spanService : Bool
  conversationId : String
  subagentName : String
  userMessage : String
  deriving Repr

-- Where the coroutine `_run` waits.
inductive Place where
  | scheduled
  | launching
  | executing
  | completing
  | failing
  | handling
  | done
  deriving DecidableEq, Repr

inductive Outcome where
  | goesOn
  | success
  | failure
  | raises
  deriving DecidableEq, Repr

-- Where a sweep stands with the execution: it is in the snapshot of the tasks, the cancel key is read, the
-- key is deleted after a cancellation, or the sweep has gone past it.
inductive Sweep where
  | snapshot
  | reading
  | deleting
  | past (remove : Bool)
  deriving DecidableEq, Repr

inductive CancelKey where
  | absent
  | error
  | malformed
  | signal
  deriving DecidableEq, Repr

structure Execution where
  place : Place := .scheduled
  cancelRequested : Bool := false
  registered : Bool := true
  status : SubAgentStatus := .pending
  started : Bool := false
  trail : List SubAgentStatus := [.pending]
  events : List TerminalEvent := []
  pendingEvents : List TerminalEvent := []
  sweeps : List Sweep := []
  deriving Repr

inductive Request where
  | resume (outcome : Outcome)
  | cancel
  | sweepOrphans
  | checkTask (call : Nat) (timedOut : Bool)
  | readCancelKey (call : Nat) (answer : CancelKey) (timedOut : Bool)
  | deleteCancelKey (call : Nat) (ok : Bool) (timedOut : Bool)
  | endSweep (call : Nat)
  deriving Repr

-- What `SubAgentRun` checks before the run is traced. The id of an execution is never blank.
def Config.traceable (config : Config) : Bool :=
  Text.strip config.conversationId ≠ "" && Text.strip config.subagentName ≠ "" &&
    Text.strip (Text.take 200 config.userMessage) ≠ ""

namespace Execution

variable (e : Execution)

def setStatus (status : SubAgentStatus) : Execution :=
  { e with status, trail := if e.status = status then e.trail else e.trail ++ [status] }

def start : Execution :=
  { e.setStatus .running with started := true }

def emit (event : TerminalEvent) : Execution :=
  { e with events := e.events ++ [event] }

-- `task.cancel()`, which does nothing once the task is done.
def cancelTask : Execution :=
  if e.place = .done then e else { e with cancelRequested := true }

def interrupted : Execution :=
  let e := { e with cancelRequested := false }
  match e.place with
  | .executing | .completing | .failing =>
    { (e.setStatus .cancelled).emit .subagentKilled with place := .handling }
  | _ => { e with place := .done }

def resume (config : Config) (outcome : Outcome) : Execution :=
  if e.place = .done then
    e
  else if e.cancelRequested then
    e.interrupted
  else
    match e.place with
    | .scheduled => { e.start with place := .launching }
    | .launching =>
      -- The run is traced outside of the `try`.
      if config.spanService && !config.traceable then { e with place := .done }
      else { e with place := .executing }
    | .executing =>
      match outcome with
      | .goesOn => e
      | .success => { (e.setStatus .completed).emit .subagentCompleted with place := .completing }
      | .failure => { (e.setStatus .failed).emit .subagentFailed with place := .failing }
      | .raises => { (e.setStatus .failed).emit .subagentFailed with place := .handling }
    | _ => { e with place := .done }

def cancel : Execution × Bool :=
  if e.registered && e.place ≠ .done then
    ((e.cancelTask.setStatus .cancelled).emit .subagentKilled, true)
  else
    (e, false)

def kill (config : Config) : Execution :=
  let e := e.cancelTask.setStatus .failed
  if config.orphanSweeper then { e with pendingEvents := e.pendingEvents ++ [.subagentKilled] }
  else e.emit .subagentKilled

def setSweep (call : Nat) (sweep : Sweep) : Execution :=
  { e with sweeps := e.sweeps.set call sweep }

def sweepOrphans : Execution :=
  if e.registered then { e with sweeps := e.sweeps ++ [.snapshot] } else e

def checkTimeout (config : Config) (call : Nat) (timedOut remove : Bool) : Execution :=
  if e.started && timedOut then (e.kill config).setSweep call (.past true)
  else e.setSweep call (.past remove)

def checkTask (config : Config) (call : Nat) (timedOut : Bool) : Execution :=
  match e.sweeps[call]? with
  | some .snapshot =>
    if e.place = .done then e.setSweep call (.past true)
    else if config.redis then e.setSweep call .reading
    else e.checkTimeout config call timedOut false
  | _ => e

def readCancelKey (config : Config) (call : Nat) (answer : CancelKey) (timedOut : Bool) : Execution :=
  match e.sweeps[call]? with
  | some .reading =>
    match answer with
    | .absent | .error => e.checkTimeout config call timedOut false
    | .malformed => e.cancelTask.checkTimeout config call timedOut false
    | .signal => (e.kill config).setSweep call .deleting
  | _ => e

def deleteCancelKey (config : Config) (call : Nat) (ok timedOut : Bool) : Execution :=
  match e.sweeps[call]? with
  | some .deleting =>
    if ok then e.setSweep call (.past true) else e.checkTimeout config call timedOut true
  | _ => e

def endSweep (config : Config) (call : Nat) : Execution :=
  match e.sweeps[call]? with
  | some (.past remove) =>
    let e := { e with
      sweeps := e.sweeps.eraseIdx call
      registered := e.registered && !remove }
    if config.orphanSweeper then { e with events := e.events ++ e.pendingEvents, pendingEvents := [] }
    else e
  | _ => e

def step (config : Config) (e : Execution) : Request → Execution × Option Bool
  | .resume outcome => (e.resume config outcome, none)
  | .cancel => (e.cancel.1, some e.cancel.2)
  | .sweepOrphans => (e.sweepOrphans, none)
  | .checkTask call timedOut => (e.checkTask config call timedOut, none)
  | .readCancelKey call answer timedOut => (e.readCancelKey config call answer timedOut, none)
  | .deleteCancelKey call ok timedOut => (e.deleteCancelKey config call ok timedOut, none)
  | .endSweep call => (e.endSweep config call, none)

end Execution

end Subagent
end Agent
end MemStack
