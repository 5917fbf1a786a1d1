import MemStack.Port.Prog
import MemStack.Agent.DoomLoop

/-!
This module contains the ReAct engine (`agent/react.rs`) as a program over its ports: the checkpoint
store, the planner, the tool host, the supervisor, the control channel and the observer. It is about
one session, so the session id is not repeated in the calls.

Two kinds of ghosts are part of the calls. A `save` carries the place of the source it stands for, and
a tool call carries the round it is made in. The queries `satisfied`, `boundary` and `hitlBoundary` are
no port calls of the source. They mark that a human request was satisfied by a recorded answer, and
that the end of a round was reached in status `Running`, the latter with the trigger that was raised
or, for a round replayed from a human answer, without looking for one.
-/

namespace MemStack
namespace Agent

open Port

structure SteeringInstruction where
  id : String
  content : String
  deriving DecidableEq, Repr

inductive RunDirective where
  | continue
  | pause
  | cancel
  | steer (instruction : SteeringInstruction)
  deriving DecidableEq, Repr

inductive SavePoint where
  | pause
  | cancel
  | steer (instruction : SteeringInstruction)
  | hitlReplay
  | resuspend
  | roundBudget
  | toolDone
  | suspend
  | boundary
  | resumed
  | cancelAccepted
  | reopened
  | overruled
  | stopped
  | answered
  deriving DecidableEq, Repr

inductive Query where
  | load
  | save (place : SavePoint) (state : SessionState)
  | directive (round : Nat)
  | acknowledgeSteering (instructionId : String) (round : Nat)
  | listTools
  | decide (goal : String) (round : Nat) (transcript : List TranscriptEntry) (tools : List String)
  | call (round : Nat) (tool inputJson : String)
  | review (reason : TriggerReason) (round : Nat) (transcript : List TranscriptEntry)
  | onToolCall (round : Nat) (tool inputJson : String)
  | onToolResult (round : Nat) (tool inputJson outputJson : String)
  | onToolError (round : Nat) (tool inputJson : String) (error : CoreError)
  | onFinish (round : Nat) (answer : String)
  | onHumanRequest (round : Nat) (request : HitlRequest)
  | satisfied (round : Nat) (request : HitlRequest) (answer : String)
  | boundary (round : Nat) (trigger : Option TriggerReason)
  | hitlBoundary (round : Nat)
  deriving DecidableEq, Repr

abbrev Query.Answer : Query → Type
  | .load => Option SessionState
  | .directive _ => RunDirective
  | .listTools => List String
  | .decide .. => AgentAction
  | .call .. => String
  | .review .. => SupervisorVerdict
  | .save .. => Unit
  | .acknowledgeSteering .. => Unit
  | .onToolCall .. => Unit
  | .onToolResult .. => Unit
  | .onToolError .. => Unit
  | .onFinish .. => Unit
  | .onHumanRequest .. => Unit
  | .satisfied .. => Unit
  | .boundary .. => Unit
  | .hitlBoundary _ => Unit

abbrev ports : Ports where
  Query := Query
  Answer := Query.Answer

abbrev ReActProg (α : Type) := Prog ports CoreError α

structure ReActEngine where
  maxRounds : Nat
  doomCfg : Option (Nat × Nat)
  costBudget : Option CostBudget
  terminalTools : List String
  supervisor : Bool
  deriving DecidableEq, Repr

structure Hosts where
  observer : Bool
  control : Bool
  deriving DecidableEq, Repr

structure Locals where
  state : SessionState
  detector : Option DoomLoopDetector
  cost : Option CostTracker
  deriving DecidableEq, Repr

def ask (q : Query) : ReActProg q.Answer :=
  Prog.ask (P := ports) q

namespace SessionState

def steered (state : SessionState) (instruction : SteeringInstruction) : SessionState :=
  let state := state.pushUnique ⟨state.round, .human, instruction.content⟩
  { state with appliedSteeringIds := state.appliedSteeringIds ++ [instruction.id] }

@[simp]
theorem steered_status (c : SessionState) (instruction : SteeringInstruction)
    : (c.steered instruction).status = c.status := by
  simp [steered]

@[simp]
theorem steered_appliedSteeringIds (c : SessionState) (instruction : SteeringInstruction)
    : (c.steered instruction).appliedSteeringIds = c.appliedSteeringIds ++ [instruction.id] := by
  simp [steered]

end SessionState

namespace ReActEngine

-- The control channel at the head of a round: go on with the round (`inl`) or break (`inr`).
def sampleDirective (hosts : Hosts) (state : SessionState)
    : ReActProg (SessionState ⊕ SessionState) :=
  if hosts.control then do
    match ← ask (.directive state.round) with
    | .continue => pure (.inl state)
    | .pause =>
      let state := { state with status := .paused }
      ask (.save .pause state)
      pure (.inr state)
    | .cancel =>
      let state := { state with status := .cancelled }
      ask (.save .cancel state)
      pure (.inr state)
    | .steer instruction =>
      if instruction.id ∈ state.appliedSteeringIds then
        ask (.acknowledgeSteering instruction.id state.round)
        pure (.inl state)
      else
        let state := state.steered instruction
        ask (.save (.steer instruction) state)
        ask (.acknowledgeSteering instruction.id state.round)
        pure (.inl state)
  else
    pure (.inl state)

-- A pending request at the head of a round: `continue` (`inl`) or break (`inr`).
def replayHitl (state : SessionState) (req : HitlRequest)
    : ReActProg (SessionState ⊕ SessionState) :=
  match state.hitlAnswer req.id with
  | some answer => do
    ask (.satisfied state.round req answer)
    ask (.hitlBoundary state.round)
    let state := state.pushUnique ⟨state.round, .human, answer⟩
    let state := { state with pendingHitl := none, round := state.round + 1 }
    ask (.save .hitlReplay state)
    pure (.inl state)
  | none => do
    let state := { state with status := .awaitingInput }
    ask (.save .resuspend state)
    pure (.inr state)

def notify (hosts : Hosts) (q : Query) : ReActProg Unit :=
  if hosts.observer then
    ask q >>= fun _ => pure ()
  else
    pure ()

def finish (hosts : Hosts) (state : SessionState) (answer : String) : ReActProg SessionState := do
  let state := state.pushUnique ⟨state.round, .answer, answer⟩
  notify hosts (.onFinish state.round answer)
  pure { state with answer := some answer, status := .finished }

def reportError (hosts : Hosts) (round : Nat) (tool inputJson : String) (error : CoreError)
    : ReActProg Unit :=
  if hosts.observer then
    Prog.attempt (P := ports) (.onToolError round tool inputJson error) >>= fun _ => pure ()
  else
    pure ()

def reportResult (hosts : Hosts) (round : Nat) (tool inputJson output : String) (toolFailed : Bool)
    : ReActProg Unit :=
  if toolFailed then
    pure ()
  else
    notify hosts (.onToolResult round tool inputJson output)

def saveOutput (state : SessionState) (tool inputJson : String) (out : String × Bool)
    : ReActProg (SessionState × String × Bool) := do
  let call : CompletedCall :=
    { round := state.round, tool, inputJson, outputJson := out.1, failed := out.2 }
  let state := { state with completedToolCalls := state.completedToolCalls ++ [call] }
  ask (.save .toolDone state)
  pure (state, out)

def invokeTool (hosts : Hosts) (state : SessionState) (tool inputJson : String)
    : ReActProg (SessionState × String × Bool) := do
  match ← Prog.attempt (P := ports) (.call state.round tool inputJson) with
  | .ok output => saveOutput state tool inputJson (output, false)
  | .error error =>
    reportError hosts state.round tool inputJson error
    saveOutput state tool inputJson (error.toText, true)

def toolOutput (hosts : Hosts) (state : SessionState) (tool inputJson : String)
    : ReActProg (SessionState × String × Bool) :=
  match state.completedCall state.round tool inputJson with
  | some call => pure (state, call.outputJson, call.failed)
  | none => invokeTool hosts state tool inputJson

def observeAction (detector : Option DoomLoopDetector) (actionKey : String)
    : Option DoomLoopDetector × Bool :=
  match detector with
  | some d =>
    let seen := d.observe actionKey
    (some seen.1, seen.2)
  | none => (none, false)

def withObservation (e : ReActEngine) (state : SessionState) (tool : String) (out : String × Bool)
    : SessionState :=
  let state := state.pushUnique ⟨state.round, .observation, out.1⟩
  if !out.2 && e.terminalTools.contains tool then
    { state with status := .finished }
  else
    state

def callTool (e : ReActEngine) (hosts : Hosts) (l : Locals) (tool inputJson : String)
    : ReActProg (Locals × Bool) := do
  let actionKey := s!"{tool} {inputJson}"
  let state := l.state.pushUnique ⟨l.state.round, .action, actionKey⟩
  let observed := observeAction l.detector actionKey
  let cost := l.cost.map CostTracker.recordToolCall
  notify hosts (.onToolCall state.round tool inputJson)
  let done ← toolOutput hosts state tool inputJson
  reportResult hosts done.1.round tool inputJson done.2.1 done.2.2
  let state := withObservation e done.1 tool done.2
  pure ({ state, detector := observed.1, cost }, observed.2)

def requestHuman (hosts : Hosts) (state : SessionState) (request : HitlRequest)
    : ReActProg (SessionState ⊕ SessionState) :=
  let state :=
    state.pushUnique
      ⟨state.round, .action, s!"request_human[{request.kind.debug}] {request.prompt}"⟩
  match state.hitlAnswer request.id with
  | some answer => do
    ask (.satisfied state.round request answer)
    pure (.inl (state.pushUnique ⟨state.round, .human, answer⟩))
  | none => do
    notify hosts (.onHumanRequest state.round request)
    let state := { state with pendingHitl := some request, status := .awaitingInput }
    ask (.save .suspend state)
    pure (.inr state)

def stopWith (state : SessionState) (answer : String) : SessionState :=
  let state := state.pushUnique ⟨state.round, .answer, answer⟩
  { state with answer := some answer, status := .failed }

def auditLine (reason : TriggerReason) (verdict : SupervisorVerdict) : String :=
  let health := verdict.health.debug
  let next := verdict.next.debug
  s!"supervisor[{reason.debug}] health={health} next={next}: {verdict.rationale}"

def handleTrigger (e : ReActEngine) (reason : TriggerReason) (state : SessionState)
    : ReActProg (Bool × SessionState) :=
  if e.supervisor then do
    let verdict ← ask (.review reason state.round state.transcript)
    let state := state.pushUnique ⟨state.round, .thought, auditLine reason verdict⟩
    match verdict.next with
    | .continue =>
      ask (.save .overruled state)
      pure (false, state)
    | .escalate | .reassign =>
      let state := stopWith state s!"supervisor {verdict.next.debug}: {verdict.rationale}"
      ask (.save .stopped state)
      pure (true, state)
  else do
    let state := stopWith state s!"structural stop: {reason.debug}"
    ask (.save .stopped state)
    pure (true, state)

def trigger (cost : Option CostTracker) (doomFired : Bool)
    : Option TriggerReason × Option CostTracker :=
  if doomFired then
    (some .doomLoop, cost)
  else
    match cost with
    | some c =>
      let c := c.recordRound
      (if c.overBudget then some .costCeiling else none, some c)
    | none => (none, none)

def advance (l : Locals) : ReActProg (Locals ⊕ SessionState) := do
  let state := { l.state with round := l.state.round + 1 }
  ask (.save .boundary state)
  pure (.inl { l with state })

def roundBoundary (e : ReActEngine) (l : Locals) (doomFired : Bool)
    : ReActProg (Locals ⊕ SessionState) :=
  if l.state.status = .running then do
    let fired := trigger l.cost doomFired
    let l := { l with cost := fired.2 }
    ask (.boundary l.state.round fired.1)
    match fired.1 with
    | some reason =>
      let handled ← handleTrigger e reason l.state
      if handled.1 then
        pure (.inr handled.2)
      else
        advance { l with state := handled.2 }
    | none => advance l
  else
    advance l

def think (e : ReActEngine) (hosts : Hosts) (l : Locals) : ReActProg (Locals ⊕ SessionState) := do
  let available ← ask .listTools
  match ← ask (.decide l.state.goal l.state.round l.state.transcript available) with
  | .finish answer =>
    let state ← finish hosts l.state answer
    roundBoundary e { l with state } false
  | .callTool tool inputJson =>
    let called ← callTool e hosts l tool inputJson
    roundBoundary e called.1 called.2
  | .requestHuman request =>
    match ← requestHuman hosts l.state request with
    | .inl state => roundBoundary e { l with state } false
    | .inr state => pure (.inr state)

def round (e : ReActEngine) (hosts : Hosts) (l : Locals) : ReActProg (Locals ⊕ SessionState) := do
  match ← sampleDirective hosts l.state with
  | .inr state => pure (.inr state)
  | .inl state =>
    match state.pendingHitl with
    | some req =>
      match ← replayHitl state req with
      | .inl state => pure (.inl { l with state })
      | .inr state => pure (.inr state)
    | none =>
      if state.round ≥ e.maxRounds then
        let state := state.pushUnique ⟨state.round, .answer, "round budget exhausted"⟩
        let state := { state with status := .failed }
        ask (.save .roundBudget state)
        pure (.inr state)
      else
        think e hosts { l with state }

def loopBody (e : ReActEngine) (hosts : Hosts) (l : Locals) : ReActProg (Locals ⊕ SessionState) :=
  if l.state.status = .running then
    round e hosts l
  else
    pure (.inr l.state)

def instruments (e : ReActEngine) (state : SessionState) : Locals where
  state
  detector := e.doomCfg.map fun cfg => DoomLoopDetector.new cfg.1 cfg.2
  cost := e.costBudget.map fun b => (CostTracker.new b).seedRounds state.round

-- The loop is followed for `fuel` rounds.
def runInner (e : ReActEngine) (fuel : Nat) (sessionId goal : String) (projectId : Option String)
    (hosts : Hosts)
    : ReActProg SessionState := do
  let existing ← ask .load
  let state := existing.getD (SessionState.new sessionId goal projectId)
  Prog.iterate (loopBody e hosts) fuel (instruments e state)

def acceptControlledResume : ReActProg SessionState := do
  match ← ask .load with
  | none => .fail .notFound
  | some state =>
    match state.status with
    | .paused =>
      let state := { state with status := .running }
      ask (.save .resumed state)
      pure state
    | .running => pure state
    | status => .fail (.tool s!"session cannot resume from {status.debug}")

def acceptControlledCancel : ReActProg SessionState := do
  match ← ask .load with
  | none => .fail .notFound
  | some state =>
    match state.status with
    | .paused | .running =>
      let state := { state with status := .cancelled }
      ask (.save .cancelAccepted state)
      pure state
    | .cancelled => pure state
    | status => .fail (.tool s!"session cannot cancel from {status.debug}")

def acceptReviewChanges (feedback : String) : ReActProg SessionState := do
  match ← ask .load with
  | none => .fail .notFound
  | some state =>
    if state.status ≠ .finished then
      .fail (.tool s!"session is not ready for review changes: {state.status.debug}")
    else
      let feedback := Text.trim feedback
      if feedback = "" then
        .fail (.tool "review feedback is required")
      else
        let state := state.pushUnique ⟨state.round, .human, feedback⟩
        let state := { state with answer := none, status := .running }
        ask (.save .reopened state)
        pure state

def acceptHumanResponse (requestId answer : String) : ReActProg SessionState := do
  match ← ask .load with
  | none => .fail .notFound
  | some state =>
    if state.status ≠ .awaitingInput then
      pure state
    else
      match state.pendingHitl with
      | none => .fail (.tool "session is awaiting input but has no pending request")
      | some req =>
        if req.id = requestId then
          let state := state.recordHitlAnswer requestId answer
          let state := { state with status := .running }
          ask (.save .answered state)
          pure state
        else
          .fail (.tool s!"resume id mismatch: pending '{req.id}', got '{requestId}'")

def resume (e : ReActEngine) (fuel : Nat) (sessionId requestId answer : String)
    : ReActProg SessionState := do
  let state ← acceptHumanResponse requestId answer
  if state.status ≠ .running then
    pure state
  else
    runInner e fuel sessionId state.goal state.projectId { observer := false, control := false }

end ReActEngine

end Agent
end MemStack
