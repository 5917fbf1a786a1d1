import MemStack.Agent.React.Checkpoints

/-!
This module is about the cost ceiling of a session.
-/

namespace MemStack
namespace Agent

open History Port

def Event.isCall : Event → Bool
  | ⟨.call _ _ _, _⟩ => true
  | _ => false

def executedCalls (trace : List Event) : Nat :=
  trace.countP Event.isCall

def reached (bound : Option Nat) (n : Nat) : Bool :=
  bound.any (· ≤ n)

def CostBudget.exhausted (b : CostBudget) (rounds toolCalls : Nat) : Bool :=
  reached b.maxRounds rounds || reached b.maxToolCalls toolCalls

def CeilingRaised (b : CostBudget) (before : List Event) : Event → Prop
  | ⟨.boundary round fired, _⟩ =>
    b.exhausted (round + 1) (executedCalls before) = true → fired = some .costCeiling
  | ⟨.hitlBoundary round, _⟩ => b.exhausted (round + 1) (executedCalls before) = false
  | _ => True

def NoDoomLoop (e : ReActEngine) (w : World) : (q : Query) → Except CoreError q.Answer → Prop
  | .decide .., .ok (.callTool tool inputJson) =>
    (ReActEngine.observeAction (watch e w.trace).detector s!"{tool} {inputJson}").2 = false
  | _, _ => True

def Countable (e : ReActEngine) (b : CostBudget) (sessionId : String) (w : World) : Command → Prop
  | .run e' _ _ _ =>
    e' = e ∧ ∀ c, w.At sessionId c → c.status = .running →
      c.pendingHitl = none ∧ (b.maxToolCalls = none ∨ executedCalls w.trace = 0)
  | _ => True

structure Counting (e : ReActEngine) (b : CostBudget) (sessionId : String) (w₀ w : World)
    (v : Watch) (t : CostTracker) : Prop where
  cost : v.cost = some t
  budget : t.budget = b
  calls_le : v.calls ≤ t.toolCalls
  rounds_le : ∀ c, w.At sessionId c → c.status = .running → c.round + v.counted.toNat ≤ t.rounds
  fired : v.fired = false
  executed : executedCalls w.trace = executedCalls w₀.trace + v.calls
  start : ∀ c, w.At sessionId c → c.status = .running →
    c.pendingHitl = none ∧ (b.maxToolCalls = none ∨ executedCalls w₀.trace = 0)

section Inv

variable {e : ReActEngine} {b : CostBudget} {sessionId : String} {w₀ w : World} {v : Watch}
  {t : CostTracker}

theorem Counting.exhausted (h : Counting e b sessionId w₀ w v t) {c : SessionState}
    (hat : w.At sessionId c) (hrun : c.status = .running)
    (hexhausted : b.exhausted (c.round + 1) (executedCalls w.trace) = true)
    : t.recordRound.overBudget = true := by
  have hrounds := h.rounds_le c hat hrun
  have hcalls := h.calls_le
  have hstart := (h.start c hat hrun).2
  rw [h.executed] at hexhausted
  simp only [CostBudget.exhausted, reached, Bool.or_eq_true, Option.any_eq_true,
    decide_eq_true_eq] at hexhausted
  simp only [CostTracker.overBudget, CostTracker.recordRound, h.budget, Bool.or_eq_true,
    Option.any_eq_true, decide_eq_true_eq]
  rcases hexhausted with ⟨m, hm, hle⟩ | ⟨m, hm, hle⟩
  . left
    left
    refine ⟨m, hm, ?_⟩
    omega
  . left
    right
    refine ⟨m, hm, ?_⟩
    simp only [hm, reduceCtorEq, false_or] at hstart
    omega

theorem Counting.raised (h : Counting e b sessionId w₀ w v t) {c : SessionState}
    (hat : w.At sessionId c) (hrun : c.status = .running)
    (hexhausted : b.exhausted (c.round + 1) (executedCalls w.trace) = true)
    : (ReActEngine.trigger v.cost v.fired).1 = some .costCeiling := by
  simp [ReActEngine.trigger, h.fired, h.cost, h.exhausted hat hrun hexhausted]

theorem Counting.quiet (h : Counting e b sessionId w₀ w v t) {q : Query}
    {ans : Except CoreError q.Answer} {v' : Watch} {t' : CostTracker}
    (hstored : w.stored q ans = w.store) (hcost : v'.cost = some t') (hbudget : t'.budget = t.budget)
    (hcalls : v'.calls ≤ t'.toolCalls) (hfired : v'.fired = false)
    (hrounds : t.rounds + v'.counted.toNat ≤ t'.rounds + v.counted.toNat)
    (hexecuted : v'.calls = v.calls + (Event.isCall ⟨q, ans⟩).toNat)
    : Counting e b sessionId w₀ (w.record q ans) v' t' where
  cost := hcost
  budget := by
    rw [hbudget]
    apply h.budget
  calls_le := hcalls
  rounds_le := by
    intro c hat hrun
    rw [at_record hstored] at hat
    have := h.rounds_le c hat hrun
    omega
  fired := hfired
  executed := by
    have := h.executed
    simp only [executedCalls, World.record, List.countP_append, List.countP_singleton] at this ⊢
    rw [hexecuted]
    cases Event.isCall ⟨q, ans⟩ <;> simp <;> omega
  start := by
    intro c hat
    rw [at_record hstored] at hat
    apply h.start c hat

theorem Counting.unseen (h : Counting e b sessionId w₀ w v t) (q : Query)
    (ans : Except CoreError q.Answer) (hstored : w.stored q ans = w.store)
    (hcall : Event.isCall ⟨q, ans⟩ = false)
    : Counting e b sessionId w₀ (w.record q ans) v t := by
  apply h.quiet hstored h.cost rfl h.calls_le h.fired
  . omega
  . simp [hcall]

theorem SaveStep.running_cases {place : SavePoint} {c s : SessionState} (h : SaveStep place c s)
    (hrun : c.status = .running) (hpending : c.pendingHitl = none) (hrun' : s.status = .running)
    : s.pendingHitl = none ∧
        (place ≠ .boundary ∧ s.round = c.round ∨ place = .boundary ∧ s.round = c.round + 1) := by
  cases h <;>
    simp_all [SessionState.pushUnique_eq_pushed, SessionState.pushed, SessionState.steered]

theorem watch_step_save (v : Watch) (place : SavePoint) (s : SessionState)
    (ans : Except CoreError (Query.save place s).Answer)
    : Watch.step e v ⟨.save place s, ans⟩
        = { v with counted := v.counted && decide (place ≠ .boundary) } := by
  cases place <;> simp [Watch.step]

theorem Counting.save (h : Counting e b sessionId w₀ w v t) {place : SavePoint} {c s : SessionState}
    (hat : w.At sessionId c) (hrun : c.status = .running) (hstep : SaveStep place c s)
    (hcounted : place = .boundary → s.status = .running → v.counted = true)
    (ans : Except CoreError (Query.save place s).Answer)
    : Counting e b sessionId w₀ (w.record (.save place s) ans)
        (Watch.step e v ⟨.save place s, ans⟩) t := by
  rw [watch_step_save]
  have hle : (v.counted && decide (place ≠ .boundary)).toNat ≤ v.counted.toNat := by
    cases v.counted <;> simp [Bool.toNat_le]
  cases ans with
  | error err =>
    apply h.quiet
    . rfl
    . apply h.cost
    . rfl
    . apply h.calls_le
    . apply h.fired
    . dsimp only
      omega
    . rfl
  | ok _ =>
    have heq : ∀ s', (w.record (.save place s) (.ok ())).At sessionId s' → s' = s := by
      simp [World.At, World.record, World.stored]
    have hstart := h.start c hat hrun
    constructor
    . apply h.cost
    . apply h.budget
    . apply h.calls_le
    . intro s' hat' hrun'
      rw [heq s' hat'] at hrun' ⊢
      have hrounds := h.rounds_le c hat hrun
      cases (hstep.running_cases hrun hstart.1 hrun').2 with
      | inl hcase =>
        dsimp only
        omega
      | inr hcase =>
        simp only [hcase.1, hcounted hcase.1 hrun', Bool.toNat_true] at hrounds ⊢
        simp only [ne_eq, not_true_eq_false, decide_false, Bool.and_false, Bool.toNat_false]
        omega
    . apply h.fired
    . rw [← h.executed]
      simp [executedCalls, World.record, Event.isCall]
    . intro s' hat' hrun'
      rw [heq s' hat'] at hrun' ⊢
      exact ⟨(hstep.running_cases hrun hstart.1 hrun').1, hstart.2⟩

theorem Counting.decide (h : Counting e b sessionId w₀ w v t) (hv : v = watch e w.trace)
    {goal : String} {round : Nat} {transcript : List TranscriptEntry} {tools : List String}
    {ans : Except CoreError AgentAction}
    (hdoom : NoDoomLoop e w (.decide goal round transcript tools) ans)
    : ∃ t', Counting e b sessionId w₀ (w.record (.decide goal round transcript tools) ans)
        (Watch.step e v ⟨.decide goal round transcript tools, ans⟩) t' := by
  have hcalls := h.calls_le
  cases ans with
  | error err => exact ⟨t, h.unseen _ _ rfl rfl⟩
  | ok action =>
    cases action with
    | callTool tool inputJson =>
      refine ⟨t.recordToolCall, ?_⟩
      apply h.quiet
      . rfl
      . simp [Watch.step, h.cost]
      . rfl
      . simp only [Watch.step, CostTracker.recordToolCall]
        omega
      . simpa [Watch.step, hv, NoDoomLoop] using hdoom
      . simp [Watch.step, CostTracker.recordToolCall]
      . rfl
    | requestHuman request =>
      refine ⟨t, ?_⟩
      apply h.quiet
      . rfl
      . apply h.cost
      . rfl
      . apply h.calls_le
      . rfl
      . simp [Watch.step]
      . rfl
    | finish answer =>
      refine ⟨t, ?_⟩
      apply h.quiet
      . rfl
      . apply h.cost
      . rfl
      . apply h.calls_le
      . rfl
      . simp [Watch.step]
      . rfl

theorem Counting.boundary (h : Counting e b sessionId w₀ w v t) (round : Nat)
    (fired : Option TriggerReason) (ans : Except CoreError Unit)
    : Counting e b sessionId w₀ (w.record (.boundary round fired) ans)
        (Watch.step e v ⟨.boundary round fired, ans⟩) t.recordRound := by
  apply h.quiet
  . rfl
  . simp [Watch.step, ReActEngine.trigger, h.cost, h.fired]
  . rfl
  . apply h.calls_le
  . apply h.fired
  . simp only [Watch.step, CostTracker.recordRound, Bool.toNat_true]
    omega
  . rfl

theorem Counting.call (h : Counting e b sessionId w₀ w v t) (round : Nat) (tool inputJson : String)
    (ans : Except CoreError String) (hlt : v.calls < t.toolCalls)
    : Counting e b sessionId w₀ (w.record (.call round tool inputJson) ans)
        (Watch.step e v ⟨.call round tool inputJson, ans⟩) t := by
  apply h.quiet
  . rfl
  . apply h.cost
  . rfl
  . simp only [Watch.step]
    omega
  . apply h.fired
  . simp [Watch.step]
  . rfl

theorem Counting.step (h : Counting e b sessionId w₀ w (watch e w.trace) t) {q : Query}
    {ans : Except CoreError q.Answer} (hdoom : NoDoomLoop e w q ans)
    (hguarantee : RunGuarantee e sessionId w q ans)
    : CeilingRaised b w.trace ⟨q, ans⟩ ∧
        ∃ t', Counting e b sessionId w₀ (w.record q ans) (watch e (w.record q ans).trace) t' := by
  rw [watch_record]
  cases q with
  | load => cases hguarantee
  | save place s =>
    rcases hguarantee with ⟨c, hat, hrun, hstep, hcounted, -⟩
    exact ⟨trivial, t, h.save hat hrun hstep hcounted ans⟩
  | decide goal round transcript tools => exact ⟨trivial, h.decide rfl hdoom⟩
  | call round tool inputJson =>
    exact ⟨trivial, t, h.call round tool inputJson ans (hguarantee.2 t h.cost)⟩
  | boundary round fired =>
    rcases hguarantee with ⟨⟨c, hat, hrun, rfl⟩, rfl⟩
    exact ⟨h.raised hat hrun, t.recordRound, h.boundary c.round _ ans⟩
  | hitlBoundary round =>
    rcases hguarantee with ⟨c, hat, hrun, -, hpending⟩
    simp [(h.start c hat hrun).1] at hpending
  | _ => exact ⟨trivial, t, h.unseen _ ans rfl rfl⟩

theorem Counting.load (hb : e.costBudget = some b)
    (hstart : ∀ c, w.At sessionId c → c.status = .running →
      c.pendingHitl = none ∧ (b.maxToolCalls = none ∨ executedCalls w.trace = 0))
    : ∃ t, Counting e b sessionId w (w.record .load (.ok w.store))
        (watch e (w.record .load (.ok w.store)).trace) t := by
  rw [watch_record]
  refine ⟨(CostTracker.new b).seedRounds (w.store.map SessionState.round |>.getD 0), ?_⟩
  constructor
  . simp [Watch.step, Watch.init, hb]
  . rfl
  . simp [Watch.step, Watch.init]
  . intro c hat hrun
    rw [at_record (by rfl)] at hat
    cases hat with
    | inl hat => simp [hat, Watch.step, Watch.init, CostTracker.seedRounds]
    | inr hat =>
      rcases hat.2 with ⟨goal, projectId, rfl⟩
      simp [SessionState.new, Watch.step, Watch.init]
  . rfl
  . simp [Watch.step, Watch.init, executedCalls, World.record, Event.isCall]
  . intro c hat
    rw [at_record (by rfl)] at hat
    apply hstart c hat

end Inv

theorem ceiling_raised (e : ReActEngine) (b : CostBudget) (hb : e.costBudget = some b)
    (sessionId : String) (w : World)
    (h : SessionReaches (NoDoomLoop e) (Countable e b sessionId) sessionId w)
    : AtEach (CeilingRaised b) w.trace := by
  apply SessionReaches.inv_run (I := fun w => AtEach (CeilingRaised b) w.trace)
    (L := fun e' w₀ w => e' = e ∧ ∃ t, Counting e b sessionId w₀ w (watch e w.trace) t)
    _ _ _ _ _ h
  . apply atEach_nil
  . intro w ans hI
    simp only [World.record, atEach_concat]
    exact ⟨hI, trivial⟩
  . intro w e' goal projectId hosts hallowed
    exact ⟨hallowed.1, Counting.load hb hallowed.2⟩
  . intro e' w₀ w q ans hI hL hdoom hguarantee
    rcases hL with ⟨rfl, t, hcounting⟩
    have hstep := hcounting.step hdoom hguarantee
    refine ⟨?_, rfl, hstep.2⟩
    simp only [World.record, atEach_concat]
    exact ⟨hI, hstep.1⟩
  . intro w place c s ans hI _ _ _
    simp only [World.record, atEach_concat]
    exact ⟨hI, trivial⟩

def meteredEngine (b : CostBudget) : ReActEngine where
  maxRounds := 8
  doomCfg := some (4, 3)
  costBudget := some b
  terminalTools := []
  supervisor := true

def busyScript (b : CostBudget) : Script where
  directive _ := .continue
  planner w _ :=
    if (ReActEngine.observeAction (watch (meteredEngine b) w.trace).detector "ls .").2 then
      .finish "done"
    else
      .callTool "ls" "."
  tool _ _ := .ok ""
  verdict := ⟨.healthy, .continue, ""⟩

def firstRound (b : CostBudget) : World :=
  (busyScript b).issue "s" World.start (.run (meteredEngine b) "g" none ⟨false, false⟩, 9, 6)

def busyWorld (b : CostBudget) : World :=
  (busyScript b).issue "s" (firstRound b) (.run (meteredEngine b) "g" none ⟨false, false⟩, 9, 99)

theorem noDoomLoop_busyScript (b : CostBudget) (w : World) (q : Query)
    : NoDoomLoop (meteredEngine b) w q ((busyScript b).answer w q) := by
  cases q with
  | decide goal round transcript tools =>
    simp only [Script.answer, busyScript]
    split
    . trivial
    . next hno =>
      have hsignature : toString "ls" ++ toString " " ++ toString "." = "ls ." := by
        decide
      simpa only [NoDoomLoop, hsignature, Bool.not_eq_true] using hno
  | _ => trivial

theorem ceiling_raised_busy
    : (busyWorld ⟨some 2, none, none⟩).trace.any
        (fun ev => ev.query = .boundary 1 (some .costCeiling)) ∧
      AtEach (CeilingRaised ⟨some 2, none, none⟩) (busyWorld ⟨some 2, none, none⟩).trace := by
  refine ⟨by decide, ceiling_raised (meteredEngine ⟨some 2, none, none⟩) _ rfl "s" _ ?_⟩
  apply Script.reaches_issue (noDoomLoop_busyScript _)
  . apply Script.reaches_issue (noDoomLoop_busyScript _)
    . apply Prog.Reaches.refl
    . refine ⟨rfl, ?_⟩
      intro c hat _
      cases hat with
      | inl hat => simp [World.start] at hat
      | inr hat =>
        rcases hat.2 with ⟨goal, projectId, rfl⟩
        simp [SessionState.new]
  . refine ⟨rfl, ?_⟩
    intro c hat _
    have hstore : (firstRound ⟨some 2, none, none⟩).store.any (·.pendingHitl = none) := by
      decide
    cases hat with
    | inl hat => simpa [hat] using hstore
    | inr hat => simp [hat.1] at hstore

def OnEngine (e : ReActEngine) : Command → Prop
  | .run e' _ _ _ => e' = e
  | _ => True

theorem tool_calls_escape_ceiling
    : ∃ e b w, e.costBudget = some b ∧
        SessionReaches (fun _ _ _ => True) (fun _ => OnEngine e) "s" w ∧
        ¬ AtEach (CeilingRaised b) w.trace := by
  refine ⟨meteredEngine ⟨none, some 2, none⟩, _, busyWorld ⟨none, some 2, none⟩, rfl, ?_, ?_⟩
  . apply Script.reaches_issue (by simp)
    . apply Script.reaches_issue (by simp)
      . apply Prog.Reaches.refl
      . rfl
    . rfl
  . intro h
    have hraised := h.get (n := 12) (a := ⟨.boundary 1 none, .ok ()⟩) rfl
    have hexhausted : CostBudget.exhausted ⟨none, some 2, none⟩ (1 + 1)
        (executedCalls ((busyWorld ⟨none, some 2, none⟩).trace.take 12)) = true := by
      decide
    cases hraised hexhausted

end Agent
end MemStack
