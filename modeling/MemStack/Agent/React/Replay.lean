import MemStack.Agent.React.Impl

/-!
This module compares runs that are killed right after a checkpoint and started again with the run that is left
alone, for hosts that answer by a function.
-/

namespace MemStack
namespace Agent

open Port Prog

abbrev Planner := String → Nat → List TranscriptEntry → List String → Except CoreError AgentAction

structure Host where
  planner : Planner
  tools : List String
  tool : List (String × String) → String → String → Except CoreError String

structure Disk where
  store : Option SessionState
  calls : List (Nat × String × String)
  deriving DecidableEq

namespace Disk

def next (d : Disk) : (q : Query) → Except CoreError q.Answer → Disk
  | .save _ s, .ok _ => { d with store := some s }
  | .call round tool inputJson, _ => { d with calls := d.calls ++ [(round, tool, inputJson)] }
  | _, _ => d

end Disk

def Query.isSave : Query → Bool
  | .save .. => true
  | _ => false

namespace Host

def answer (h : Host) (d : Disk) : (q : Query) → Except CoreError q.Answer
  | .load => .ok d.store
  | .listTools => .ok h.tools
  | .decide goal round transcript tools => h.planner goal round transcript tools
  | .call _ tool inputJson => h.tool (d.calls.map Prod.snd) tool inputJson
  | .directive _ => .ok .continue
  | .review .. => .ok ⟨.healthy, .continue, ""⟩
  | .save .. => .ok ()
  | .acknowledgeSteering .. => .ok ()
  | .onToolCall .. => .ok ()
  | .onToolResult .. => .ok ()
  | .onToolError .. => .ok ()
  | .onFinish .. => .ok ()
  | .onHumanRequest .. => .ok ()
  | .satisfied .. => .ok ()
  | .boundary .. => .ok ()
  | .hitlBoundary _ => .ok ()

def complete (h : Host) (p : ReActProg SessionState) (d : Disk)
    : Disk × Option (Except CoreError SessionState) :=
  let r := runUntil Disk.next h.answer (fun _ => false) 0 d p
  (r.1, r.2.map Prod.fst)

def crash (h : Host) (p : ReActProg SessionState) (d : Disk) (n : Nat) : Disk :=
  (runUntil Disk.next h.answer Query.isSave n d p).1

end Host

namespace ReActEngine

def run (e : ReActEngine) (fuel : Nat) (sessionId goal : String) (projectId : Option String)
    : ReActProg SessionState :=
  e.runInner fuel sessionId goal projectId { observer := false, control := false }

end ReActEngine

structure RoundPlan where
  calls : List (Nat × String × String)
  saves : List SessionState
  result : Except CoreError (SessionState ⊕ SessionState)

namespace RoundPlan

def idle (result : Except CoreError (SessionState ⊕ SessionState)) : RoundPlan :=
  { calls := [], saves := [], result }

def goOn (s : SessionState) : RoundPlan :=
  { calls := [], saves := [s], result := .ok (.inl s) }

def stop (s : SessionState) : RoundPlan :=
  { calls := [], saves := [s], result := .ok (.inr s) }

def done (p : RoundPlan) (d : Disk) : Disk :=
  { store := p.saves.getLast?.or d.store, calls := d.calls ++ p.calls }

end RoundPlan

def plainLocals (s : SessionState) : Locals :=
  { state := s, detector := none, cost := none }

def toolResult : Except CoreError String → String × Bool
  | .ok output => (output, false)
  | .error error => (error.toText, true)

namespace SessionState

def withCall (s : SessionState) (tool inputJson : String) (out : String × Bool) : SessionState :=
  let call : CompletedCall :=
    { round := s.round, tool, inputJson, outputJson := out.1, failed := out.2 }
  { s with completedToolCalls := s.completedToolCalls ++ [call] }

end SessionState

namespace ReActEngine

variable (e : ReActEngine)

def planTool (h : Host) (calls : List (Nat × String × String)) (s : SessionState)
    (tool inputJson : String)
    : RoundPlan :=
  let s := s.pushUnique ⟨s.round, .action, s!"{tool} {inputJson}"⟩
  match s.completedCall s.round tool inputJson with
  | some prior =>
    let s := withObservation e s tool (prior.outputJson, prior.failed)
    .goOn { s with round := s.round + 1 }
  | none =>
    let out := toolResult (h.tool (calls.map Prod.snd) tool inputJson)
    let mid := s.withCall tool inputJson out
    let s' := withObservation e mid tool out
    let s' := { s' with round := s'.round + 1 }
    { calls := [(s.round, tool, inputJson)], saves := [mid, s'], result := .ok (.inl s') }

def planHuman (s : SessionState) (request : HitlRequest) : RoundPlan :=
  let s :=
    s.pushUnique ⟨s.round, .action, s!"request_human[{request.kind.debug}] {request.prompt}"⟩
  match s.hitlAnswer request.id with
  | some answer =>
    let s := s.pushUnique ⟨s.round, .human, answer⟩
    .goOn { s with round := s.round + 1 }
  | none => .stop { s with pendingHitl := some request, status := .awaitingInput }

def planReplay (s : SessionState) (req : HitlRequest) : RoundPlan :=
  match s.hitlAnswer req.id with
  | some answer =>
    let s := s.pushUnique ⟨s.round, .human, answer⟩
    .goOn { s with pendingHitl := none, round := s.round + 1 }
  | none => .stop { s with status := .awaitingInput }

def planThink (h : Host) (calls : List (Nat × String × String)) (s : SessionState) : RoundPlan :=
  match h.planner s.goal s.round s.transcript h.tools with
  | .error error => .idle (.error error)
  | .ok (.finish answer) =>
    let s := s.pushUnique ⟨s.round, .answer, answer⟩
    .goOn { s with answer := some answer, status := .finished, round := s.round + 1 }
  | .ok (.callTool tool inputJson) => planTool e h calls s tool inputJson
  | .ok (.requestHuman request) => planHuman s request

def planRound (h : Host) (calls : List (Nat × String × String)) (s : SessionState) : RoundPlan :=
  match s.pendingHitl with
  | some req => planReplay s req
  | none =>
    if s.round ≥ e.maxRounds then
      let s := s.pushUnique ⟨s.round, .answer, "round budget exhausted"⟩
      .stop { s with status := .failed }
    else
      planThink e h calls s

def plan (h : Host) (calls : List (Nat × String × String)) (s : SessionState) : RoundPlan :=
  if s.status = .running then
    planRound e h calls s
  else
    .idle (.ok (.inr s))

end ReActEngine

def RoundPlan.outcome (p : RoundPlan) (d : Disk) (n : Nat)
    : Disk × Option (Except CoreError (Locals ⊕ SessionState) × Nat) :=
  if n < p.saves.length then
    ({ store := p.saves[n]?, calls := d.calls ++ p.calls }, none)
  else
    (p.done d, some (p.result.map (Sum.map plainLocals id), n - p.saves.length))

section RoundPlan

variable {e : ReActEngine} {h : Host}

theorem outcome_goOn (s : SessionState) (d : Disk) (n : Nat)
    : (RoundPlan.goOn s).outcome d n
        =
      match n with
      | 0 => ({ d with store := some s }, none)
      | n + 1 => ({ d with store := some s }, some (.ok (.inl (plainLocals s)), n)) := by
  cases n <;> simp [RoundPlan.outcome, RoundPlan.goOn, RoundPlan.done, Except.map]

theorem outcome_stop (s : SessionState) (d : Disk) (n : Nat)
    : (RoundPlan.stop s).outcome d n
        =
      match n with
      | 0 => ({ d with store := some s }, none)
      | n + 1 => ({ d with store := some s }, some (.ok (.inr s), n)) := by
  cases n <;> simp [RoundPlan.outcome, RoundPlan.stop, RoundPlan.done, Except.map]

theorem runUntil_save (place : SavePoint) (s : SessionState) (n : Nat) (d : Disk)
    {α : Type} (k : Unit → ReActProg α)
    : runUntil Disk.next h.answer Query.isSave n d (ask (.save place s) >>= k)
        =
      match n with
      | 0 => ({ d with store := some s }, none)
      | n + 1 =>
        runUntil Disk.next h.answer Query.isSave n { d with store := some s } (k ()) := by
  cases n <;> rfl

theorem runUntil_advance (s : SessionState) (n : Nat) (d : Disk)
    : runUntil Disk.next h.answer Query.isSave n d (ReActEngine.advance (plainLocals s))
        =
      (RoundPlan.goOn { s with round := s.round + 1 }).outcome d n := by
  unfold ReActEngine.advance
  rw [runUntil_save, outcome_goOn]
  rfl

theorem runUntil_roundBoundary (s : SessionState) (n : Nat) (d : Disk)
    : runUntil Disk.next h.answer Query.isSave n d
        (ReActEngine.roundBoundary e (plainLocals s) false)
        =
      (RoundPlan.goOn { s with round := s.round + 1 }).outcome d n := by
  unfold ReActEngine.roundBoundary
  split
  . exact runUntil_advance s n d
  . exact runUntil_advance s n d

theorem runUntil_toolOutput (s : SessionState) (tool inputJson : String) (n : Nat) (d : Disk)
    : runUntil Disk.next h.answer Query.isSave n d
        (ReActEngine.toolOutput { observer := false, control := false } s tool inputJson)
        =
      match s.completedCall s.round tool inputJson with
      | some prior => (d, some (.ok (s, prior.outputJson, prior.failed), n))
      | none =>
        let out := toolResult (h.tool (d.calls.map Prod.snd) tool inputJson)
        let mid := s.withCall tool inputJson out
        let d := { store := some mid, calls := d.calls ++ [(s.round, tool, inputJson)] }
        match n with
        | 0 => (d, none)
        | n + 1 => (d, some (.ok (mid, out), n)) := by
  unfold ReActEngine.toolOutput
  cases hprior : s.completedCall s.round tool inputJson with
  | some prior => rfl
  | none =>
    simp only [ReActEngine.invokeTool, attempt, bind_eq, Prog.bind, runUntil, Query.isSave,
      Host.answer, Disk.next]
    cases h.tool (d.calls.map Prod.snd) tool inputJson with
    | ok output => cases n <;> rfl
    | error error => cases n <;> rfl

theorem runUntil_observed (s : SessionState) (tool inputJson : String) (out : String × Bool)
    (n : Nat) (d : Disk)
    : runUntil Disk.next h.answer Query.isSave n d
        ((ReActEngine.reportResult { observer := false, control := false } s.round tool inputJson
          out.1 out.2).bind fun _ =>
            ReActEngine.roundBoundary e (plainLocals (e.withObservation s tool out)) false)
        =
      (RoundPlan.goOn
        { e.withObservation s tool out with
          round := (e.withObservation s tool out).round + 1 }).outcome d n := by
  rcases out with ⟨output, failed⟩
  cases failed with
  | true => exact runUntil_roundBoundary (e := e) _ n d
  | false => exact runUntil_roundBoundary (e := e) _ n d

theorem runUntil_callTool (s : SessionState) (tool inputJson : String) (n : Nat) (d : Disk)
    : runUntil Disk.next h.answer Query.isSave n d
        (ReActEngine.callTool e { observer := false, control := false } (plainLocals s) tool
          inputJson >>= fun called => ReActEngine.roundBoundary e called.1 called.2)
        =
      (e.planTool h d.calls s tool inputJson).outcome d n := by
  unfold ReActEngine.callTool ReActEngine.planTool
  have hsplit := runUntil_bind Disk.next h.answer Query.isSave n d
    (ReActEngine.toolOutput { observer := false, control := false }
      (s.pushUnique ⟨s.round, .action, s!"{tool} {inputJson}"⟩) tool inputJson)
    (fun done =>
      (ReActEngine.reportResult { observer := false, control := false } done.1.round tool inputJson
        done.2.1 done.2.2).bind fun _ =>
          ReActEngine.roundBoundary e (plainLocals (e.withObservation done.1 tool done.2)) false)
  rw [runUntil_toolOutput] at hsplit
  simp only [bind_eq, bind_assoc]
  refine hsplit.trans ?_
  dsimp only
  generalize s.pushUnique ⟨s.round, .action, s!"{tool} {inputJson}"⟩ = s₁
  cases s₁.completedCall s₁.round tool inputJson with
  | some prior => apply runUntil_observed
  | none =>
    cases n with
    | zero => simp [RoundPlan.outcome]
    | succ n =>
      dsimp only
      rw [runUntil_observed, outcome_goOn]
      cases n <;> simp [RoundPlan.outcome, RoundPlan.done, Except.map]

theorem runUntil_requestHuman (s : SessionState) (request : HitlRequest) (n : Nat) (d : Disk)
    : runUntil Disk.next h.answer Query.isSave n d
        (do
          match ← ReActEngine.requestHuman { observer := false, control := false } s request with
          | .inl state => ReActEngine.roundBoundary e { plainLocals s with state } false
          | .inr state => pure (.inr state))
        =
      (ReActEngine.planHuman s request).outcome d n := by
  unfold ReActEngine.requestHuman ReActEngine.planHuman
  dsimp only
  generalize s.pushUnique
    ⟨s.round, .action, s!"request_human[{request.kind.debug}] {request.prompt}"⟩ = s₁
  cases s₁.hitlAnswer request.id with
  | some answer => exact runUntil_roundBoundary (e := e) _ n d
  | none =>
    rw [outcome_stop]
    cases n <;> rfl

theorem runUntil_replayHitl (s : SessionState) (req : HitlRequest) (n : Nat) (d : Disk)
    : runUntil Disk.next h.answer Query.isSave n d
        (do
          match ← ReActEngine.replayHitl s req with
          | .inl state => pure (.inl { plainLocals s with state })
          | .inr state => pure (.inr state))
        =
      (ReActEngine.planReplay s req).outcome d n := by
  unfold ReActEngine.replayHitl ReActEngine.planReplay
  cases s.hitlAnswer req.id with
  | some answer =>
    rw [outcome_goOn]
    cases n <;> rfl
  | none =>
    rw [outcome_stop]
    cases n <;> rfl

theorem outcome_idle (result : Except CoreError (SessionState ⊕ SessionState)) (d : Disk) (n : Nat)
    : (RoundPlan.idle result).outcome d n = (d, some (result.map (Sum.map plainLocals id), n)) := by
  simp [RoundPlan.outcome, RoundPlan.idle, RoundPlan.done]

theorem runUntil_query (q : Query) (hq : q.isSave = false) (n : Nat) (d : Disk) {α : Type}
    (k : q.Answer → ReActProg α)
    : runUntil Disk.next h.answer Query.isSave n d (ask q >>= k)
        =
      match h.answer d q with
      | .ok a => runUntil Disk.next h.answer Query.isSave n (d.next q (.ok a)) (k a)
      | .error error => (d.next q (.error error), some (.error error, n)) := by
  simp only [bind_eq, ask, Prog.ask, Prog.bind, runUntil, hq, Bool.false_eq_true, if_false]
  cases h.answer d q <;> rfl

theorem runUntil_think (s : SessionState) (n : Nat) (d : Disk)
    : runUntil Disk.next h.answer Query.isSave n d
        (ReActEngine.think e { observer := false, control := false } (plainLocals s))
        =
      (e.planThink h d.calls s).outcome d n := by
  unfold ReActEngine.think ReActEngine.planThink
  rw [runUntil_query .listTools rfl]
  dsimp only [Host.answer]
  rw [runUntil_query (.decide _ _ _ _) rfl]
  dsimp only [Host.answer, plainLocals]
  cases h.planner s.goal s.round s.transcript h.tools with
  | error error =>
    rw [outcome_idle]
    rfl
  | ok action =>
    cases action with
    | finish answer =>
      exact runUntil_roundBoundary (e := e)
        { s.pushUnique ⟨s.round, .answer, answer⟩ with answer := some answer, status := .finished } n d
    | callTool tool inputJson => exact runUntil_callTool s tool inputJson n d
    | requestHuman request => exact runUntil_requestHuman s request n d

theorem runUntil_round (s : SessionState) (n : Nat) (d : Disk)
    : runUntil Disk.next h.answer Query.isSave n d
        (ReActEngine.round e { observer := false, control := false } (plainLocals s))
        =
      (e.planRound h d.calls s).outcome d n := by
  unfold ReActEngine.round ReActEngine.planRound
  simp only [ReActEngine.sampleDirective, plainLocals, Bool.false_eq_true, if_false, pure_eq,
    bind_eq, Prog.bind]
  cases s.pendingHitl with
  | some req => exact runUntil_replayHitl s req n d
  | none =>
    by_cases hbudget : s.round ≥ e.maxRounds
    . simp only [hbudget, if_true]
      rw [outcome_stop]
      cases n <;> rfl
    . simp only [hbudget, if_false]
      exact runUntil_think s n d

theorem runUntil_loopBody (s : SessionState) (n : Nat) (d : Disk)
    : runUntil Disk.next h.answer Query.isSave n d
        (ReActEngine.loopBody e { observer := false, control := false } (plainLocals s))
        =
      (e.plan h d.calls s).outcome d n := by
  unfold ReActEngine.loopBody ReActEngine.plan
  by_cases hrun : s.status = .running
  . simp only [plainLocals, hrun, if_true]
    apply runUntil_round
  . simp only [plainLocals, hrun, if_false]
    rw [outcome_idle]
    rfl

end RoundPlan

end Agent
end MemStack
