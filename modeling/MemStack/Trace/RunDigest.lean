import MemStack.Util.DictCount
import MemStack.Util.Text

/-!
This module contains the digest of the trace of a run (`domain/model/trace/trace_run_digest.py`). The times are
those of one clock, and `str.lower` is given.
-/

namespace MemStack
namespace Trace

inductive TraceEventKind where
  | toolCall
  | toolResult
  | thought
  | error
  | other
  deriving DecidableEq, Repr

structure TraceEvent where
  kind : TraceEventKind
  timestamp : Int
  toolName : Option String := none
  success : Option Bool := none
  filePath : Option String := none
  operation : Option String := none
  summary : Option String := none
  deriving DecidableEq, Repr

structure FileDigestEntry where
  path : String
  operations : List String
  touchCount : Nat
  deriving DecidableEq, Repr

structure ToolDigestEntry where
  name : String
  count : Nat
  failures : Nat
  deriving DecidableEq, Repr

structure VerificationSignal where
  command : String
  passed : Bool
  summary : Option String := none
  deriving DecidableEq, Repr

inductive TargetType where
  | file
  | tool
  deriving DecidableEq, Repr

structure ChurnEntry where
  target : String
  targetType : TargetType
  count : Nat
  deriving DecidableEq, Repr

structure TraceRunDigest where
  sessionId : String
  totalEvents : Nat
  filesTouched : List FileDigestEntry := []
  toolCalls : List ToolDigestEntry := []
  errorCount : Nat := 0
  errorSummaries : List String := []
  keyThoughts : List String := []
  timeRange : Option (Int × Int) := none
  verificationSignals : List VerificationSignal := []
  churnMarkers : List ChurnEntry := []
  confidenceFlags : List String := []
  deriving DecidableEq, Repr

def churnThreshold : Nat := 3

def verificationToolNames : List String :=
  ["run_command", "execute_command", "run_terminal", "bash", "shell", "terminal"]

def verificationCmdKeywords : List String :=
  ["test", "vitest", "jest", "pytest", "cargo test", "npm test", "check", "lint", "eslint", "tsc", "build",
    "compile", "verify", "validate"]

def truthy (s : Option String) : Option String :=
  s.filter (· ≠ "")

namespace TraceEvent

def path (ev : TraceEvent) : Option String :=
  truthy ev.filePath

def tool (ev : TraceEvent) : Option String :=
  if ev.kind = .toolCall ∨ ev.kind = .toolResult then truthy ev.toolName else none

def isFailure (ev : TraceEvent) : Bool :=
  ev.kind = .toolResult ∧ ev.success = some false

def isError (ev : TraceEvent) : Bool :=
  ev.kind = .error ∨ ev.isFailure

def thought (ev : TraceEvent) : Option String :=
  if ev.kind = .thought then truthy ev.summary else none

end TraceEvent

-- `sorted(events, key=lambda e: e.timestamp)`.
def sortedEvents (events : List TraceEvent) : List TraceEvent :=
  events.insertionSort fun a b => a.timestamp ≤ b.timestamp

structure FileTally where
  opsByPath : Dict String (Finset String) := Dict.empty
  countByPath : Dict String Nat := Dict.empty

def FileTally.add (s : FileTally) (ev : TraceEvent) : FileTally :=
  match ev.path with
  | none => s
  | some path =>
    let ops := s.opsByPath.setDefault path ∅
    { opsByPath :=
        match truthy ev.operation with
        | none => ops
        | some operation => ops.set path (insert operation ((ops.get path).getD ∅))
      countByPath := s.countByPath.bump path }

-- What sorting the operations of a file needs.
local instance isTrans_le : IsTrans String (· ≤ ·) :=
  inferInstance

local instance antisymm_le : Std.Antisymm (fun a b : String => a ≤ b) :=
  inferInstance

def aggregateFiles (events : List TraceEvent) : List FileDigestEntry :=
  let s := events.foldl FileTally.add {}
  let entries := s.countByPath.keys.map fun path => {
    path
    operations := ((s.opsByPath.get path).getD ∅).sort (· ≤ ·)
    touchCount := (s.countByPath.get path).getD 0
  }
  entries.insertionSort fun a b => b.touchCount ≤ a.touchCount

structure ToolTally where
  callsByName : Dict String Nat := Dict.empty
  failuresByName : Dict String Nat := Dict.empty

def ToolTally.add (s : ToolTally) (ev : TraceEvent) : ToolTally :=
  match ev.tool with
  | none => s
  | some name =>
    let calls := s.callsByName.setDefault name 0
    let failures := s.failuresByName.setDefault name 0
    if ev.kind = .toolCall then
      { callsByName := calls.bump name, failuresByName := failures }
    else if ev.isFailure then
      { callsByName := calls, failuresByName := failures.bump name }
    else
      { callsByName := calls, failuresByName := failures }

def aggregateTools (events : List TraceEvent) : List ToolDigestEntry :=
  let s := events.foldl ToolTally.add {}
  let entries := s.callsByName.keys.map fun name => {
    name
    count := (s.callsByName.get name).getD 0
    failures := (s.failuresByName.get name).getD 0
  }
  entries.insertionSort fun a b => b.count ≤ a.count

def addError (s : Nat × List String) (ev : TraceEvent) : Nat × List String :=
  if ev.isError then
    match truthy ev.summary with
    | some summary => (s.1 + 1, s.2 ++ [Text.take 200 summary])
    | none => (s.1 + 1, s.2)
  else
    s

def aggregateErrors (events : List TraceEvent) : Nat × List String :=
  let s := events.foldl addError (0, [])
  (s.1, s.2.take 5)

def shorten (thought : String) : String :=
  Text.take 240 thought

def collect (seen : Finset String) (deduped : List String) : List String → List String
  | [] => deduped
  | t :: thoughts =>
    if t ∈ seen then
      collect seen deduped thoughts
    else
      let deduped := deduped ++ [shorten t]
      if 6 ≤ deduped.length then
        deduped
      else
        collect (insert t seen) deduped thoughts

-- `l[-3:]`.
def lastThree {α : Type} (l : List α) : List α :=
  l.drop (l.length - 3)

def collectKeyThoughts (events : List TraceEvent) : List String :=
  lastThree (collect ∅ [] (events.filterMap TraceEvent.thought))

section Verification

variable (lower : String → String)

structure VerificationState where
  signals : List VerificationSignal := []
  pendingCommand : Dict String String := Dict.empty

def VerificationState.add (s : VerificationState) (ev : TraceEvent) : VerificationState :=
  match truthy ev.toolName with
  | none => s
  | some name =>
    if name ∉ verificationToolNames then
      s
    else if ev.kind = .toolCall ∧ (truthy ev.summary).isSome then
      let summary := ev.summary.getD ""
      if verificationCmdKeywords.any (Text.contains (lower summary)) then
        { s with pendingCommand := s.pendingCommand.set name (Text.take 120 summary) }
      else
        s
    else if ev.kind = .toolResult then
      let cmd := (s.pendingCommand.get name).getD ""
      let pending := s.pendingCommand.erase name
      if cmd = "" then
        { s with pendingCommand := pending }
      else
        let signal : VerificationSignal := {
          command := cmd
          passed := ev.success ≠ some false
          summary := (truthy ev.summary).map (Text.take 200)
        }
        { signals := s.signals ++ [signal], pendingCommand := pending }
    else
      s

def detectVerification (events : List TraceEvent) : List VerificationSignal :=
  (events.foldl (VerificationState.add lower) {}).signals

end Verification

def detectChurn (files : List FileDigestEntry) (tools : List ToolDigestEntry) : List ChurnEntry :=
  let fileChurn := (files.filter fun f => churnThreshold ≤ f.touchCount).map fun f =>
    { target := f.path, targetType := TargetType.file, count := f.touchCount : ChurnEntry }
  let toolChurn := (tools.filter fun t => churnThreshold ≤ t.count ∧ 0 < t.failures).map fun t =>
    { target := t.name, targetType := TargetType.tool, count := t.count : ChurnEntry }
  (fileChurn ++ toolChurn).insertionSort fun a b => b.count ≤ a.count

def confidenceFlags (errorCount : Nat) (churn : List ChurnEntry) (verifications : List VerificationSignal)
    : List String :=
  (if 3 ≤ errorCount then [toString errorCount ++ " errors observed in parent run"] else []) ++
  (if churn.any (·.targetType = .tool) then ["repeated tool failures (churn)"] else []) ++
  (if verifications.any (!·.passed) then ["at least one verification command failed"] else [])

def buildTraceRunDigest (lower : String → String) (sessionId : String) (events : List TraceEvent)
    : TraceRunDigest :=
  match sortedEvents events with
  | [] => { sessionId, totalEvents := 0 }
  | first :: rest =>
    let sorted := first :: rest
    let files := aggregateFiles sorted
    let tools := aggregateTools sorted
    let errors := aggregateErrors sorted
    let signals := detectVerification lower sorted
    let churn := detectChurn files tools
    {
      sessionId
      totalEvents := sorted.length
      filesTouched := files
      toolCalls := tools
      errorCount := errors.1
      errorSummaries := errors.2
      keyThoughts := collectKeyThoughts sorted
      timeRange := some (first.timestamp, (sorted.getLast (List.cons_ne_nil first rest)).timestamp)
      verificationSignals := signals
      churnMarkers := churn
      confidenceFlags := confidenceFlags errors.1 churn signals
    }

end Trace
end MemStack
