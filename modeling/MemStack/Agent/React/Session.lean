import MemStack.Agent.React.Impl

/-!
This module contains the life of one session: the checkpoint store, the history of all port calls,
and the commands a host can issue, each of which may be killed between any two port calls. `SaveStep` is the
relation between a checkpoint and the one that is saved after it, and `Guarantee` states for every port call
of a run what holds when it is made. All results about sessions are derived from these two.
-/

namespace MemStack
namespace Agent

open Port

structure Event where
  query : Query
  answer : Except CoreError query.Answer

structure World where
  store : Option SessionState
  trace : List Event

namespace World

def start : World :=
  { store := none, trace := [] }

def stored (w : World) : (q : Query) → Except CoreError q.Answer → Option SessionState
  | .save _ state, .ok _ => some state
  | _, _ => w.store

def record (w : World) (q : Query) (ans : Except CoreError q.Answer) : World :=
  { store := w.stored q ans, trace := w.trace ++ [⟨q, ans⟩] }

def honest (w : World) : (q : Query) → Except CoreError q.Answer → Prop
  | .load, .ok existing => existing = w.store
  | .listTools, .error _ => False
  | .satisfied .., .error _ => False
  | .boundary .., .error _ => False
  | .hitlBoundary _, .error _ => False
  | _, _ => True

def At (w : World) (sessionId : String) (c : SessionState) : Prop :=
  w.store = some c ∨
    (w.store = none ∧ ∃ goal projectId, c = SessionState.new sessionId goal projectId)

end World

def hostEnv (R : World → (q : Query) → Except CoreError q.Answer → Prop)
    : Env ports CoreError World where
  allows w q ans := w.honest q ans ∧ R w q ans
  next := World.record

inductive Command where
  | run (e : ReActEngine) (goal : String) (projectId : Option String) (hosts : Hosts)
  | acceptControlledResume
  | acceptControlledCancel
  | acceptReviewChanges (feedback : String)
  | acceptHumanResponse (requestId answer : String)

namespace Command

def prog (sessionId : String) (fuel : Nat) : Command → ReActProg SessionState
  | .run e goal projectId hosts => e.runInner fuel sessionId goal projectId hosts
  | .acceptControlledResume => ReActEngine.acceptControlledResume
  | .acceptControlledCancel => ReActEngine.acceptControlledCancel
  | .acceptReviewChanges feedback => ReActEngine.acceptReviewChanges feedback
  | .acceptHumanResponse requestId answer => ReActEngine.acceptHumanResponse requestId answer

end Command

def SessionReaches (R : World → (q : Query) → Except CoreError q.Answer → Prop)
    (allowed : World → Command → Prop) (sessionId : String)
    : World → Prop :=
  Prog.Reaches (hostEnv R) (fun w p => ∃ cmd fuel, allowed w cmd ∧ p = cmd.prog sessionId fuel)
    World.start

theorem SessionReaches.resume {R : World → (q : Query) → Except CoreError q.Answer → Prop}
    {allowed : World → Command → Prop} {sessionId : String} {w w' : World}
    (hw : SessionReaches R allowed sessionId w) (e : ReActEngine) (fuel : Nat)
    (requestId answer : String) (haccept : allowed w (.acceptHumanResponse requestId answer))
    (hrun : ∀ w goal projectId,
      allowed w (.run e goal projectId { observer := false, control := false }))
    {r : Option (Except CoreError SessionState)}
    (hexec : Prog.Exec (hostEnv R) w (e.resume fuel sessionId requestId answer) w' r)
    : SessionReaches R allowed sessionId w' := by
  have haccepted (w₁ : World) (r₁ : Option (Except CoreError SessionState))
      (hexec : Prog.Exec (hostEnv R) w (ReActEngine.acceptHumanResponse requestId answer) w₁ r₁)
      : SessionReaches R allowed sessionId w₁ :=
    .step w w₁ _ r₁ hw ⟨.acceptHumanResponse requestId answer, 0, haccept, rfl⟩ hexec
  cases Prog.Exec.of_bind hexec with
  | inl hkilled =>
    rcases hkilled with ⟨r₁, hkilled⟩
    apply haccepted w' r₁ hkilled
  | inr hdone =>
    rcases hdone with ⟨w₁, state, hdone, hrest⟩
    have hw₁ := haccepted w₁ _ hdone
    split at hrest
    . cases hrest with
      | crash => exact hw₁
      | ret => exact hw₁
    . apply Prog.Reaches.step w₁ w' _ r hw₁ _ hrest
      exact ⟨.run e state.goal state.projectId { observer := false, control := false }, fuel,
        hrun w₁ state.goal state.projectId, rfl⟩

structure Script where
  directive : World → RunDirective
  planner : World → Nat → AgentAction
  tool : String → String → Except CoreError String
  verdict : SupervisorVerdict

namespace Script

def answer (p : Script) (w : World) : (q : Query) → Except CoreError q.Answer
  | .load => .ok w.store
  | .directive _ => .ok (p.directive w)
  | .listTools => .ok []
  | .decide _ round _ _ => .ok (p.planner w round)
  | .call _ tool inputJson => p.tool tool inputJson
  | .review .. => .ok p.verdict
  | .save .. => .ok ()
  | .acknowledgeSteering .. => .ok ()
  | .onToolCall .. => .ok ()
  | .onToolResult .. => .ok ()
  | .onToolError .. => .ok ()
  | .onFinish .. => .ok ()
  | .onHumanRequest .. => .ok ()
  | .satisfied .. => .ok ()
  | .boundary .. => .ok ()
  | .hitlBoundary _ => .ok ()

def issue (p : Script) (sessionId : String) (w : World) (cmd : Command × Nat × Nat) : World :=
  (Prog.runUntil World.record p.answer (fun _ => true) cmd.2.2 w (cmd.1.prog sessionId cmd.2.1)).1

def play (p : Script) (sessionId : String) (w : World) (cmds : List (Command × Nat × Nat)) : World :=
  cmds.foldl (p.issue sessionId) w

theorem answer_honest (p : Script) (w : World) (q : Query) : w.honest q (p.answer w q) := by
  cases q <;> simp [answer, World.honest]

section Reaches

variable {R : World → (q : Query) → Except CoreError q.Answer → Prop}
  {allowed : World → Command → Prop} {sessionId : String} {p : Script} {w : World}

theorem reaches_issue (hR : ∀ w q, R w q (p.answer w q)) (hw : SessionReaches R allowed sessionId w)
    {cmd : Command × Nat × Nat} (hcmd : allowed w cmd.1)
    : SessionReaches R allowed sessionId (p.issue sessionId w cmd) := by
  apply Prog.Reaches.step w _ _ _ hw ⟨cmd.1, cmd.2.1, hcmd, rfl⟩
  apply Prog.exec_runUntil (E := hostEnv R)
  intro w q
  exact ⟨p.answer_honest w q, hR w q⟩

theorem reaches_play (hR : ∀ w q, R w q (p.answer w q)) (hw : SessionReaches R allowed sessionId w)
    {cmds : List (Command × Nat × Nat)} (hcmds : ∀ w, ∀ cmd ∈ cmds, allowed w cmd.1)
    : SessionReaches R allowed sessionId (p.play sessionId w cmds) := by
  induction cmds generalizing w with
  | nil => apply hw
  | cons cmd cmds ih =>
    apply ih
    . apply reaches_issue hR hw
      apply hcmds w cmd
      simp
    . intro w cmd hcmd
      apply hcmds w cmd
      simp [hcmd]

end Reaches

end Script

structure Watch where
  detector : Option DoomLoopDetector
  cost : Option CostTracker
  -- did the action decided last trip the detector
  fired : Bool
  -- was the end of the current round reached in status `Running`
  counted : Bool
  -- the tools called since the engine was started
  calls : Nat
  deriving DecidableEq, Repr

namespace Watch

def init (e : ReActEngine) (round : Nat) : Watch where
  detector := e.doomCfg.map fun cfg => DoomLoopDetector.new cfg.1 cfg.2
  cost := e.costBudget.map fun b => (CostTracker.new b).seedRounds round
  fired := false
  counted := false
  calls := 0

def step (e : ReActEngine) (v : Watch) : Event → Watch
  | ⟨.load, .ok existing⟩ => init e (existing.map SessionState.round |>.getD 0)
  | ⟨.decide _ _ _ _, .ok (.callTool tool inputJson)⟩ =>
    let observed := ReActEngine.observeAction v.detector s!"{tool} {inputJson}"
    { v with
      detector := observed.1
      cost := v.cost.map CostTracker.recordToolCall
      fired := observed.2
      counted := false
    }
  | ⟨.decide _ _ _ _, .ok _⟩ => { v with fired := false, counted := false }
  | ⟨.call _ _ _, _⟩ => { v with calls := v.calls + 1 }
  | ⟨.boundary _ _, _⟩ =>
    { v with cost := (ReActEngine.trigger v.cost v.fired).2, counted := true }
  | ⟨.save .boundary _, _⟩ => { v with counted := false }
  | _ => v

end Watch

def watch (e : ReActEngine) (trace : List Event) : Watch :=
  trace.foldl (Watch.step e) (Watch.init e 0)

open Port

inductive SaveStep : SavePoint → SessionState → SessionState → Prop where
  | pause (c : SessionState) (hrun : c.status = .running)
      : SaveStep .pause c { c with status := .paused }
  | cancel (c : SessionState) (hrun : c.status = .running)
      : SaveStep .cancel c { c with status := .cancelled }
  | steer (c : SessionState) (instruction : SteeringInstruction) (hrun : c.status = .running)
      (hnew : instruction.id ∉ c.appliedSteeringIds)
      : SaveStep (.steer instruction) c (c.steered instruction)
  | hitlReplay (c : SessionState) (req : HitlRequest) (answer : String) (hrun : c.status = .running)
      (hpending : c.pendingHitl = some req) (hanswer : c.hitlAnswer req.id = some answer)
      : SaveStep .hitlReplay c
          { c.pushUnique ⟨c.round, .human, answer⟩ with pendingHitl := none, round := c.round + 1 }
  | resuspend (c : SessionState) (req : HitlRequest) (hrun : c.status = .running)
      (hpending : c.pendingHitl = some req) (hanswer : c.hitlAnswer req.id = none)
      : SaveStep .resuspend c { c with status := .awaitingInput }
  | roundBudget (c : SessionState) (lines : List TranscriptEntry) (hrun : c.status = .running)
      : SaveStep .roundBudget c { c.pushed lines with status := .failed }
  | toolDone (c : SessionState) (lines : List TranscriptEntry) (call : CompletedCall)
      (hrun : c.status = .running) (hpending : c.pendingHitl = none) (hround : call.round = c.round)
      : SaveStep .toolDone c
          { c.pushed lines with completedToolCalls := c.completedToolCalls ++ [call] }
  | suspend (c : SessionState) (lines : List TranscriptEntry) (req : HitlRequest)
      (hrun : c.status = .running) (hpending : c.pendingHitl = none)
      (hanswer : c.hitlAnswer req.id = none)
      : SaveStep .suspend c
          { c.pushed lines with pendingHitl := some req, status := .awaitingInput }
  | boundary (c : SessionState) (lines : List TranscriptEntry) (answer : Option String)
      (status : SessionStatus) (hrun : c.status = .running) (hpending : c.pendingHitl = none)
      (hstatus : status = .running ∨ status = .finished)
      : SaveStep .boundary c { c.pushed lines with answer, status, round := c.round + 1 }
  | overruled (c : SessionState) (lines : List TranscriptEntry) (hrun : c.status = .running)
      (hpending : c.pendingHitl = none)
      : SaveStep .overruled c (c.pushed lines)
  | stopped (c : SessionState) (lines : List TranscriptEntry) (answer : Option String)
      (hrun : c.status = .running)
      : SaveStep .stopped c { c.pushed lines with answer, status := .failed }
  | resumed (c : SessionState) (hpaused : c.status = .paused)
      : SaveStep .resumed c { c with status := .running }
  | cancelAccepted (c : SessionState) (hstatus : c.status = .paused ∨ c.status = .running)
      : SaveStep .cancelAccepted c { c with status := .cancelled }
  | reopened (c : SessionState) (feedback : String) (hfinished : c.status = .finished)
      : SaveStep .reopened c
          { c.pushUnique ⟨c.round, .human, feedback⟩ with answer := none, status := .running }
  | answered (c : SessionState) (req : HitlRequest) (answer : String)
      (hawaiting : c.status = .awaitingInput) (hpending : c.pendingHitl = some req)
      : SaveStep .answered c { c.recordHitlAnswer req.id answer with status := .running }

def World.JustRequested (w : World) (req : HitlRequest) : Prop :=
  ∃ goal round transcript tools,
    w.trace.getLast? = some ⟨.decide goal round transcript tools, .ok (.requestHuman req)⟩

def World.JustSteered (w : World) (instruction : SteeringInstruction) : Prop :=
  ∃ round, w.trace.getLast? = some ⟨.directive round, .ok (.steer instruction)⟩

-- What holds when the loop of the engine `e` makes a port call.
def RunGuarantee (e : ReActEngine) (sessionId : String) (w : World)
    : (q : Query) → Except CoreError q.Answer → Prop
  | .load, _ => False
  | .save place s, _ =>
    ∃ c, w.At sessionId c ∧ c.status = .running ∧ SaveStep place c s ∧
      (place = .boundary → s.status = .running → (watch e w.trace).counted = true) ∧
      ∀ instruction, place = .steer instruction → w.JustSteered instruction
  | .call round tool inputJson, _ =>
    (∃ c, w.At sessionId c ∧ c.status = .running ∧ c.round = round ∧
      c.completedCall round tool inputJson = none) ∧
    ∀ t, (watch e w.trace).cost = some t → (watch e w.trace).calls < t.toolCalls
  | .acknowledgeSteering id _, _ => ∃ c, w.At sessionId c ∧ id ∈ c.appliedSteeringIds
  | .satisfied round req answer, _ =>
    ∃ c, w.At sessionId c ∧ c.status = .running ∧ c.round = round ∧
      c.hitlAnswer req.id = some answer ∧ (c.pendingHitl = some req ∨ w.JustRequested req)
  | .boundary round fired, _ =>
    (∃ c, w.At sessionId c ∧ c.status = .running ∧ c.round = round) ∧
      fired = (ReActEngine.trigger (watch e w.trace).cost (watch e w.trace).fired).1
  | .hitlBoundary round, _ =>
    ∃ c, w.At sessionId c ∧ c.status = .running ∧ c.round = round ∧ c.pendingHitl.isSome
  | _, _ => True

def SavePoint.external : SavePoint → Bool
  | .resumed => true
  | .cancelAccepted => true
  | .reopened => true
  | .answered => true
  | _ => false

def AcceptGuarantee (sessionId : String) (w : World) : (q : Query) → Except CoreError q.Answer → Prop
  | .load, _ => True
  | .save place s, _ => place.external = true ∧ ∃ c, w.At sessionId c ∧ SaveStep place c s
  | _, _ => False

end Agent
end MemStack
