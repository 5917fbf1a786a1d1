import MemStack.Agent.React.Session

/-!
This module shows that the engine keeps its guarantee, part by part in the order of the source.
-/

namespace MemStack
namespace Agent

open Port Prog

variable {R : World → (q : Query) → Except CoreError q.Answer → Prop} {e : ReActEngine}
  {sessionId : String} {w : World}

theorem keeps_ask_host {α : Type} {G : World → (q : Query) → Except CoreError q.Answer → Prop}
    {Q : World → α → Prop} {q : Query} {k : q.Answer → ReActProg α}
    (hG : ∀ ans, w.honest q ans → G w q ans)
    (hk : ∀ a, w.honest q (.ok a) → R w q (.ok a) →
      Keeps (hostEnv R) G Q (w.record q (.ok a)) (k a))
    : Keeps (hostEnv R) G Q w (ask q >>= k) := by
  apply keeps_ask_bind
  . intro ans hans
    apply hG ans hans.1
  . intro a ha
    apply hk a ha.1 ha.2

theorem watch_record (q : Query) (ans : Except CoreError q.Answer)
    : watch e (w.record q ans).trace = Watch.step e (watch e w.trace) ⟨q, ans⟩ := by
  simp [watch, World.record]

theorem at_record {q : Query} {ans : Except CoreError q.Answer} {c : SessionState}
    (h : w.stored q ans = w.store)
    : (w.record q ans).At sessionId c ↔ w.At sessionId c := by
  simp only [World.At, World.record, h]

theorem at_save (place : SavePoint) (s : SessionState)
    : (w.record (.save place s) (.ok ())).At sessionId s := by
  left
  rfl

structure Synced (e : ReActEngine) (w : World) (l : Locals) : Prop where
  detector_eq : l.detector = (watch e w.trace).detector
  cost_eq : l.cost = (watch e w.trace).cost
  calls_le : ∀ t, (watch e w.trace).cost = some t → (watch e w.trace).calls ≤ t.toolCalls

theorem Synced.of_watch_eq {w' : World} {l : Locals} (h : Synced e w l)
    (heq : watch e w'.trace = watch e w.trace) (s : SessionState)
    : Synced e w' { l with state := s } := by
  constructor
  . rw [heq]
    apply h.detector_eq
  . rw [heq]
    apply h.cost_eq
  . rw [heq]
    apply h.calls_le

structure AtHead (e : ReActEngine) (sessionId : String) (w : World) (l : Locals) : Prop where
  here : w.At sessionId l.state
  synced : Synced e w l

theorem AtHead.record {l : Locals} (h : AtHead e sessionId w l) (q : Query)
    (ans : Except CoreError q.Answer) (hstore : w.stored q ans = w.store)
    (hsame : ∀ v, Watch.step e v ⟨q, ans⟩ = v)
    : AtHead e sessionId (w.record q ans) l := by
  constructor
  . rw [at_record hstore]
    apply h.here
  . apply h.synced.of_watch_eq
    rw [watch_record, hsame]

theorem AtHead.saved {l : Locals} (h : Synced e w l) (place : SavePoint) (s : SessionState)
    (hsame : ∀ v, Watch.step e v ⟨.save place s, .ok ()⟩ = v)
    : AtHead e sessionId (w.record (.save place s) (.ok ())) { l with state := s } := by
  constructor
  . apply at_save
  . apply h.of_watch_eq
    rw [watch_record, hsame]

theorem keeps_sampleDirective (hosts : Hosts) {l : Locals} (h : AtHead e sessionId w l)
    (hrun : l.state.status = .running)
    : Keeps (hostEnv R) (RunGuarantee e sessionId)
        (fun w' r => ∀ s, r = .inl s →
          AtHead e sessionId w' { l with state := s } ∧ s.status = .running)
        w (ReActEngine.sampleDirective hosts l.state) := by
  unfold ReActEngine.sampleDirective
  split
  . apply keeps_ask_host (fun _ _ => trivial)
    intro d _ _
    have h := h.record (.directive l.state.round) (.ok d) rfl (fun _ => rfl)
    cases d with
    | «continue» => simp [h, hrun]
    | pause =>
      apply keeps_ask_host
      . intros
        exact ⟨_, h.here, hrun, .pause _ hrun, by simp⟩
      . simp
    | cancel =>
      apply keeps_ask_host
      . intros
        exact ⟨_, h.here, hrun, .cancel _ hrun, by simp⟩
      . simp
    | steer instruction =>
      dsimp only
      split
      . next hold =>
        apply keeps_ask_host
        . intros
          exact ⟨_, h.here, hold⟩
        . intros
          have h := h.record (.acknowledgeSteering instruction.id l.state.round)
            (.ok ()) rfl (fun _ => rfl)
          simp [h, hrun]
      . next hnew =>
        apply keeps_ask_host
        . intros
          refine ⟨_, h.here, hrun, .steer _ _ hrun hnew, by simp, ?_⟩
          intro instruction' hplace
          cases hplace
          refine ⟨l.state.round, ?_⟩
          simp [World.record]
        . intros
          have h : AtHead e sessionId _ _ := AtHead.saved h.synced (.steer instruction)
            (l.state.steered instruction) (fun _ => rfl)
          apply keeps_ask_host
          . intros
            exact ⟨_, h.here, by simp⟩
          . intros
            have h := h.record
              (.acknowledgeSteering instruction.id (l.state.steered instruction).round)
              (.ok ()) rfl (fun _ => rfl)
            simp [h, hrun]
  . simp [h, hrun]

theorem keeps_replayHitl {l : Locals} (h : AtHead e sessionId w l)
    (hrun : l.state.status = .running) {req : HitlRequest}
    (hpending : l.state.pendingHitl = some req)
    : Keeps (hostEnv R) (RunGuarantee e sessionId)
        (fun w' r => ∀ s, r = .inl s → AtHead e sessionId w' { l with state := s })
        w (ReActEngine.replayHitl l.state req) := by
  unfold ReActEngine.replayHitl
  split
  . next answer hanswer =>
    apply keeps_ask_host
    . intros
      exact ⟨_, h.here, hrun, rfl, hanswer, .inl hpending⟩
    . intros
      have h := h.record (.satisfied l.state.round req answer) (.ok ()) rfl
        (fun _ => rfl)
      apply keeps_ask_host
      . intros
        exact ⟨_, h.here, hrun, rfl, by simp [hpending]⟩
      . intros
        have h := h.record (.hitlBoundary l.state.round) (.ok ()) rfl (fun _ => rfl)
        apply keeps_ask_host
        . intros
          refine ⟨_, h.here, hrun, ?_, by simp⟩
          rw [SessionState.pushUnique_round]
          apply SaveStep.hitlReplay _ _ _ hrun hpending hanswer
        . intro _ _ _ s hs
          simp only [Sum.inl.injEq] at hs
          rw [hs]
          apply AtHead.saved h.synced
          intros
          rfl
  . next hanswer =>
    apply keeps_ask_host
    . intros
      exact ⟨_, h.here, hrun, .resuspend _ req hrun hpending hanswer, by simp⟩
    . simp

structure InRound (e : ReActEngine) (sessionId : String) (w : World) (l : Locals) (fired : Bool)
    : Prop where
  base : ∃ c lines, w.At sessionId c ∧ c.status = .running ∧ c.pendingHitl = none ∧
    l.state = c.pushed lines
  synced : Synced e w l
  fired_eq : fired = (watch e w.trace).fired

theorem InRound.record {l : Locals} {fired : Bool} (h : InRound e sessionId w l fired) (q : Query)
    (ans : Except CoreError q.Answer) (hstore : w.stored q ans = w.store)
    (hsame : ∀ v, Watch.step e v ⟨q, ans⟩ = v)
    : InRound e sessionId (w.record q ans) l fired := by
  rcases h.base with ⟨c, lines, hat, hbase⟩
  have hwatch : watch e (w.record q ans).trace = watch e w.trace := by
    rw [watch_record, hsame]
  constructor
  . exact ⟨c, lines, (at_record hstore).mpr hat, hbase⟩
  . apply h.synced.of_watch_eq hwatch
  . rw [hwatch]
    apply h.fired_eq

theorem InRound.saved {l : Locals} {fired : Bool} (h : InRound e sessionId w l fired)
    {place : SavePoint} {s : SessionState} (hrun : s.status = .running)
    (hpending : s.pendingHitl = none)
    (hsame : ∀ v, Watch.step e v ⟨.save place s, .ok ()⟩ = v)
    : InRound e sessionId (w.record (.save place s) (.ok ())) { l with state := s } fired := by
  have hwatch : watch e (w.record (.save place s) (.ok ())).trace = watch e w.trace := by
    rw [watch_record, hsame]
  constructor
  . exact ⟨s, [], at_save place s, hrun, hpending, by simp⟩
  . apply h.synced.of_watch_eq hwatch
  . rw [hwatch]
    apply h.fired_eq

theorem InRound.pushUnique {l : Locals} {fired : Bool} (h : InRound e sessionId w l fired)
    (entry : TranscriptEntry)
    : InRound e sessionId w { l with state := l.state.pushUnique entry } fired := by
  rcases h.base with ⟨c, lines, hat, hrun, hpending, heq⟩
  rcases SessionState.pushed_pushUnique c entry lines with ⟨lines', heq'⟩
  constructor
  . refine ⟨c, lines', hat, hrun, hpending, ?_⟩
    rw [← heq', ← heq]
  . apply h.synced.of_watch_eq rfl
  . apply h.fired_eq

theorem InRound.status {l : Locals} {fired : Bool} (h : InRound e sessionId w l fired)
    : l.state.status = .running := by
  rcases h.base with ⟨c, lines, -, hrun, -, heq⟩
  rw [heq]
  apply hrun

def AtEnd (e : ReActEngine) (sessionId : String) (w : World) (l : Locals) (fired : Bool) : Prop :=
  InRound e sessionId w l fired ∨
    ∃ s answer, InRound e sessionId w { l with state := s } fired ∧
      l.state = { s with answer, status := .finished }

theorem InRound.atEnd {l : Locals} {fired : Bool} (h : InRound e sessionId w l fired)
    : AtEnd e sessionId w l fired := by
  left
  exact h

theorem InRound.finish {l : Locals} {fired : Bool} (h : InRound e sessionId w l fired)
    (answer : Option String)
    : AtEnd e sessionId w { l with state := { l.state with answer, status := .finished } } fired := by
  right
  exact ⟨l.state, answer, h, rfl⟩

theorem AtEnd.inRound {l : Locals} {fired : Bool} (h : AtEnd e sessionId w l fired)
    (hrun : l.state.status = .running)
    : InRound e sessionId w l fired := by
  cases h with
  | inl h => exact h
  | inr h =>
    rcases h with ⟨s, answer, -, heq⟩
    simp [heq] at hrun

theorem AtEnd.base {l : Locals} {fired : Bool} (h : AtEnd e sessionId w l fired)
    : ∃ c lines answer status, w.At sessionId c ∧ c.status = .running ∧ c.pendingHitl = none ∧
        l.state = { c.pushed lines with answer, status } ∧
        (status = .running ∨ status = .finished) := by
  cases h with
  | inl h =>
    rcases h.base with ⟨c, lines, hat, hrun, hpending, heq⟩
    exact ⟨c, lines, c.answer, c.status, hat, hrun, hpending, heq, .inl hrun⟩
  | inr h =>
    rcases h with ⟨s, answer, h, heq⟩
    rcases h.base with ⟨c, lines, hat, hrun, hpending, heq'⟩
    dsimp only at heq'
    rw [heq'] at heq
    exact ⟨c, lines, answer, .finished, hat, hrun, hpending, heq, .inr rfl⟩

theorem AtEnd.synced {l : Locals} {fired : Bool} (h : AtEnd e sessionId w l fired)
    : Synced e w l := by
  cases h with
  | inl h => apply h.synced
  | inr h =>
    rcases h with ⟨s, answer, h, heq⟩
    apply h.synced.of_watch_eq rfl

def Query.report : Query → Bool
  | .onToolCall .. => true
  | .onToolResult .. => true
  | .onToolError .. => true
  | .onFinish .. => true
  | .onHumanRequest .. => true
  | _ => false

theorem InRound.report {l : Locals} {fired : Bool} (h : InRound e sessionId w l fired) {q : Query}
    (hq : q.report = true) (ans : Except CoreError q.Answer)
    : RunGuarantee e sessionId w q ans ∧ InRound e sessionId (w.record q ans) l fired ∧
        watch e (w.record q ans).trace = watch e w.trace := by
  have hstep : ∀ v, Watch.step e v ⟨q, ans⟩ = v := by
    intro v
    cases q <;> simp [Query.report] at hq <;> rfl
  have hstore : w.stored q ans = w.store := by
    cases q <;> simp [Query.report] at hq <;> rfl
  refine ⟨?_, h.record _ _ hstore hstep, by rw [watch_record, hstep]⟩
  cases q <;> simp [Query.report] at hq <;> trivial

theorem keeps_notify (hosts : Hosts) {l : Locals} {fired : Bool}
    (h : InRound e sessionId w l fired) {q : Query} (hq : q.report = true)
    : Keeps (hostEnv R) (RunGuarantee e sessionId)
        (fun w' _ => InRound e sessionId w' l fired ∧ watch e w'.trace = watch e w.trace)
        w (ReActEngine.notify hosts q) := by
  unfold ReActEngine.notify
  split
  . apply keeps_ask_host
    . intro ans _
      apply (h.report hq ans).1
    . intro a _ _
      apply (h.report hq _).2
  . simp [h]

theorem keeps_finish (hosts : Hosts) {l : Locals} (h : InRound e sessionId w l false)
    (answer : String)
    : Keeps (hostEnv R) (RunGuarantee e sessionId)
        (fun w' s => AtEnd e sessionId w' { l with state := s } false)
        w (ReActEngine.finish hosts l.state answer) := by
  unfold ReActEngine.finish
  rw [bind_eq, keeps_bind]
  have h := h.pushUnique ⟨l.state.round, .answer, answer⟩
  apply (keeps_notify hosts h rfl).mono
  intro w' _ hw'
  apply hw'.1.finish

theorem keeps_reportError (hosts : Hosts) {l : Locals} {fired : Bool}
    (h : InRound e sessionId w l fired) (round : Nat) (tool inputJson : String) (error : CoreError)
    : Keeps (hostEnv R) (RunGuarantee e sessionId)
        (fun w' _ => InRound e sessionId w' l fired)
        w (ReActEngine.reportError hosts round tool inputJson error) := by
  unfold ReActEngine.reportError
  split
  . rw [bind_eq, keeps_bind, keeps_attempt]
    intro ans _
    have := h.report (q := .onToolError round tool inputJson error) rfl ans
    exact ⟨this.1, this.2.1⟩
  . apply h

theorem keeps_saveOutput {l : Locals} {fired : Bool} (h : InRound e sessionId w l fired)
    (tool inputJson : String) (out : String × Bool)
    : Keeps (hostEnv R) (RunGuarantee e sessionId)
        (fun w' r => InRound e sessionId w' { l with state := r.1 } fired)
        w (ReActEngine.saveOutput l.state tool inputJson out) := by
  rcases h.base with ⟨c, lines, hat, hrun, hpending, heq⟩
  unfold ReActEngine.saveOutput
  apply keeps_ask_host
  . intros
    refine ⟨c, hat, hrun, ?_, by simp⟩
    rw [heq]
    apply SaveStep.toolDone _ _ _ hrun hpending rfl
  . intros
    apply h.saved
    . rw [heq]
      apply hrun
    . rw [heq]
      apply hpending
    . intros
      rfl

theorem InRound.call {l : Locals} {fired : Bool} (h : InRound e sessionId w l fired)
    (hcalls : ∀ t, (watch e w.trace).cost = some t → (watch e w.trace).calls < t.toolCalls)
    (round : Nat) (tool inputJson : String) (ans : Except CoreError String)
    : InRound e sessionId (w.record (.call round tool inputJson) ans) l fired := by
  rcases h.base with ⟨c, lines, hat, hbase⟩
  have hwatch := watch_record (e := e) (w := w) (.call round tool inputJson) ans
  constructor
  . refine ⟨c, lines, ?_, hbase⟩
    rw [at_record]
    . apply hat
    . rfl
  . constructor
    . rw [hwatch]
      apply h.synced.detector_eq
    . rw [hwatch]
      apply h.synced.cost_eq
    . rw [hwatch]
      apply hcalls
  . rw [hwatch]
    apply h.fired_eq

theorem keeps_toolOutput (hosts : Hosts) {l : Locals} {fired : Bool}
    (h : InRound e sessionId w l fired)
    (hcalls : ∀ t, (watch e w.trace).cost = some t → (watch e w.trace).calls < t.toolCalls)
    (tool inputJson : String)
    : Keeps (hostEnv R) (RunGuarantee e sessionId)
        (fun w' r => InRound e sessionId w' { l with state := r.1 } fired)
        w (ReActEngine.toolOutput hosts l.state tool inputJson) := by
  unfold ReActEngine.toolOutput
  split
  . apply h
  . next hnew =>
    unfold ReActEngine.invokeTool
    rw [bind_eq, keeps_bind, keeps_attempt]
    intro ans _
    constructor
    . rcases h.base with ⟨c, lines, hat, hrun, -, heq⟩
      rw [heq] at hnew ⊢
      exact ⟨⟨c, hat, hrun, rfl, hnew⟩, hcalls⟩
    . have h := h.call hcalls l.state.round tool inputJson ans
      cases ans with
      | ok output => apply keeps_saveOutput h
      | error error =>
        dsimp only
        rw [bind_eq, keeps_bind]
        apply (keeps_reportError hosts h _ tool inputJson error).mono
        intro w' _ h'
        apply keeps_saveOutput h'

theorem keeps_reportResult (hosts : Hosts) {l : Locals} {fired : Bool}
    (h : InRound e sessionId w l fired) (round : Nat) (tool inputJson output : String)
    (toolFailed : Bool)
    : Keeps (hostEnv R) (RunGuarantee e sessionId)
        (fun w' _ => InRound e sessionId w' l fired)
        w (ReActEngine.reportResult hosts round tool inputJson output toolFailed) := by
  unfold ReActEngine.reportResult
  split
  . apply h
  . apply (keeps_notify hosts h rfl).mono
    intro w' _ hw'
    apply hw'.1

theorem keeps_callTool (hosts : Hosts) {l : Locals} {tool inputJson : String}
    (h : InRound e sessionId w
      { l with
        detector := (ReActEngine.observeAction l.detector s!"{tool} {inputJson}").1
        cost := l.cost.map CostTracker.recordToolCall }
      (ReActEngine.observeAction l.detector s!"{tool} {inputJson}").2)
    (hcalls : ∀ t, (watch e w.trace).cost = some t → (watch e w.trace).calls < t.toolCalls)
    : Keeps (hostEnv R) (RunGuarantee e sessionId)
        (fun w' r => AtEnd e sessionId w' r.1 r.2)
        w (ReActEngine.callTool e hosts l tool inputJson) := by
  unfold ReActEngine.callTool
  have h := h.pushUnique ⟨l.state.round, .action, s!"{tool} {inputJson}"⟩
  rw [bind_eq, keeps_bind]
  apply (keeps_notify hosts h rfl).mono
  intro w₁ _ hw₁
  rw [bind_eq, keeps_bind]
  have hcalls₁ := hw₁.2 ▸ hcalls
  apply (keeps_toolOutput hosts hw₁.1 hcalls₁ tool inputJson).mono
  intro w₂ done hw₂
  rw [bind_eq, keeps_bind]
  apply (keeps_reportResult hosts hw₂ _ tool inputJson done.2.1 done.2.2).mono
  intro w₃ _ hw₃
  have h := hw₃.pushUnique ⟨done.1.round, .observation, done.2.1⟩
  rw [pure_eq, keeps_ret]
  unfold ReActEngine.withObservation
  dsimp only
  split
  . apply h.finish
  . apply h.atEnd

theorem keeps_requestHuman (hosts : Hosts) {l : Locals} {request : HitlRequest}
    (h : InRound e sessionId w l false) (hlast : w.JustRequested request)
    : Keeps (hostEnv R) (RunGuarantee e sessionId)
        (fun w' r => ∀ s, r = .inl s → AtEnd e sessionId w' { l with state := s } false)
        w (ReActEngine.requestHuman hosts l.state request) := by
  unfold ReActEngine.requestHuman
  have h := h.pushUnique
    ⟨l.state.round, .action, s!"request_human[{request.kind.debug}] {request.prompt}"⟩
  rcases h.base with ⟨c, lines, hat, hrun, hpending, heq⟩
  dsimp only at heq ⊢
  rw [heq] at h ⊢
  split
  . next answer hanswer =>
    apply keeps_ask_host
    . intros
      exact ⟨c, hat, hrun, rfl, hanswer, .inr hlast⟩
    . intro _ _ _ s hs
      simp only [Sum.inl.injEq] at hs
      rw [← hs]
      have h := h.record (.satisfied c.round request answer) (.ok ()) rfl (fun _ => rfl)
      apply InRound.atEnd
      apply h.pushUnique
  . next hanswer =>
    rw [bind_eq, keeps_bind]
    apply (keeps_notify hosts h rfl).mono
    intro w' _ hw'
    rcases hw'.1.base with ⟨c', lines', hat', hrun', hpending', heq'⟩
    dsimp only at heq'
    have hanswer' : c'.hitlAnswer request.id = none := by
      rw [← c'.pushed_hitlAnswer lines', ← heq', hanswer]
    apply keeps_ask_host
    . intros
      refine ⟨c', hat', hrun', ?_, by simp⟩
      rw [heq']
      apply SaveStep.suspend _ _ _ hrun' hpending' hanswer'
    . simp

theorem keeps_stop {l : Locals} {fired : Bool} (h : InRound e sessionId w l fired)
    {Q : World → Bool × SessionState → Prop} (hQ : ∀ w' s, Q w' (true, s)) (answer : String)
    : Keeps (hostEnv R) (RunGuarantee e sessionId) Q w
        (do
          ask (.save .stopped (ReActEngine.stopWith l.state answer))
          pure (true, ReActEngine.stopWith l.state answer)) := by
  rcases h.base with ⟨c, lines, hat, hrun, -, heq⟩
  apply keeps_ask_host
  . intros
    refine ⟨c, hat, hrun, ?_, by simp⟩
    rcases c.pushed_pushUnique ⟨c.round, .answer, answer⟩ lines with ⟨lines', heq'⟩
    rw [ReActEngine.stopWith, heq, SessionState.pushed_round, heq']
    apply SaveStep.stopped _ _ _ hrun
  . intros
    apply hQ

theorem keeps_handleTrigger (reason : TriggerReason) {l : Locals} {fired : Bool}
    (h : InRound e sessionId w l fired)
    : Keeps (hostEnv R) (RunGuarantee e sessionId)
        (fun w' r => r.1 = false →
          InRound e sessionId w' { l with state := r.2 } fired ∧
            watch e w'.trace = watch e w.trace)
        w (ReActEngine.handleTrigger e reason l.state) := by
  unfold ReActEngine.handleTrigger
  split
  . apply keeps_ask_host (fun _ _ => trivial)
    intro verdict _ _
    have hwatch := watch_record (e := e) (w := w)
      (.review reason l.state.round l.state.transcript) (.ok verdict)
    have h := h.record (.review reason l.state.round l.state.transcript) (.ok verdict)
      rfl (fun _ => rfl)
    have h := h.pushUnique ⟨l.state.round, .thought, ReActEngine.auditLine reason verdict⟩
    dsimp only
    split
    . rcases h.base with ⟨c, lines, hat, hrun, hpending, heq⟩
      dsimp only at heq
      apply keeps_ask_host
      . intros
        refine ⟨c, hat, hrun, ?_, by simp⟩
        rw [heq]
        apply SaveStep.overruled c lines hrun hpending
      . intro _ _ _ _
        constructor
        . apply h.saved
          . apply h.status
          . rw [heq]
            apply hpending
          . intros
            rfl
        . rw [watch_record]
          apply hwatch
    . apply keeps_stop h
      simp
    . apply keeps_stop h
      simp
  . apply keeps_stop h
    simp

theorem keeps_advance {l : Locals} {fired : Bool} (h : AtEnd e sessionId w l fired)
    (hcounted : l.state.status = .running → (watch e w.trace).counted = true)
    : Keeps (hostEnv R) (RunGuarantee e sessionId)
        (fun w' r => ∀ l', r = .inl l' → AtHead e sessionId w' l')
        w (ReActEngine.advance l) := by
  rcases h.base with ⟨c, lines, answer, status, hat, hrun, hpending, heq, hstatus⟩
  unfold ReActEngine.advance
  apply keeps_ask_host
  . intros
    refine ⟨c, hat, hrun, ?_, fun _ => hcounted, by simp⟩
    rw [heq]
    apply SaveStep.boundary _ _ _ _ hrun hpending hstatus
  . intro _ _ _ l' hl'
    simp only [Sum.inl.injEq] at hl'
    rw [← hl']
    constructor
    . apply at_save
    . have hwatch := watch_record (e := e) (w := w)
        (.save .boundary { l.state with round := l.state.round + 1 }) (.ok ())
      constructor
      . rw [hwatch]
        apply h.synced.detector_eq
      . rw [hwatch]
        apply h.synced.cost_eq
      . rw [hwatch]
        apply h.synced.calls_le

theorem trigger_toolCalls {cost : Option CostTracker} {fired : Bool} {t : CostTracker}
    (h : (ReActEngine.trigger cost fired).2 = some t)
    : ∃ t', cost = some t' ∧ t'.toolCalls = t.toolCalls := by
  unfold ReActEngine.trigger at h
  grind [CostTracker.recordRound]

theorem InRound.boundary {l : Locals} {fired : Bool} (h : InRound e sessionId w l fired)
    (round : Nat) (t : Option TriggerReason)
    : InRound e sessionId (w.record (.boundary round t) (.ok ()))
        { l with cost := (ReActEngine.trigger l.cost fired).2 } fired := by
  rcases h.base with ⟨c, lines, hat, hbase⟩
  have hwatch := watch_record (e := e) (w := w) (.boundary round t) (.ok ())
  constructor
  . refine ⟨c, lines, ?_, hbase⟩
    rw [at_record]
    . apply hat
    . rfl
  . constructor
    . rw [hwatch]
      apply h.synced.detector_eq
    . rw [hwatch, h.synced.cost_eq, h.fired_eq]
      rfl
    . rw [hwatch]
      intro c hc
      rcases trigger_toolCalls hc with ⟨c', hc', heq⟩
      rw [← heq]
      apply h.synced.calls_le c' hc'
  . rw [hwatch]
    apply h.fired_eq

theorem keeps_roundBoundary {l : Locals} {fired : Bool} (h : AtEnd e sessionId w l fired)
    : Keeps (hostEnv R) (RunGuarantee e sessionId)
        (fun w' r => ∀ l', r = .inl l' → AtHead e sessionId w' l')
        w (ReActEngine.roundBoundary e l fired) := by
  unfold ReActEngine.roundBoundary
  split
  . next hrun =>
    have h := h.inRound hrun
    apply keeps_ask_host
    . intros
      rcases h.base with ⟨c, lines, hat, hrun, -, heq⟩
      refine ⟨⟨c, hat, hrun, by rw [heq]; rfl⟩, ?_⟩
      rw [h.synced.cost_eq, h.fired_eq]
    . intros
      have hcounted : (watch e
          (w.record (.boundary l.state.round (ReActEngine.trigger l.cost fired).1) (.ok ())).trace
          ).counted = true := by
        rw [watch_record]
        rfl
      have h := h.boundary l.state.round (ReActEngine.trigger l.cost fired).1
      dsimp only
      split
      . next reason _ =>
        rw [bind_eq, keeps_bind]
        apply (keeps_handleTrigger reason h).mono
        intro w' handled hw'
        cases hstop : handled.1 with
        | true => simp
        | false =>
          have hw' := hw' hstop
          apply keeps_advance hw'.1.atEnd
          rw [hw'.2]
          intros
          apply hcounted
      . apply keeps_advance h.atEnd
        intros
        apply hcounted
  . next hrun =>
    apply keeps_advance h
    grind

theorem InRound.decide {l : Locals} (hat : w.At sessionId l.state) (hsynced : Synced e w l)
    (hrun : l.state.status = .running) (hpending : l.state.pendingHitl = none)
    (goal : String) (round : Nat) (transcript : List TranscriptEntry) (tools : List String)
    (action : AgentAction) (haction : ∀ tool inputJson, action ≠ .callTool tool inputJson)
    : InRound e sessionId (w.record (.decide goal round transcript tools) (.ok action)) l false := by
  have hwatch := watch_record (e := e) (w := w) (.decide goal round transcript tools) (.ok action)
  constructor
  . refine ⟨l.state, [], ?_, hrun, hpending, by simp⟩
    rw [at_record]
    . apply hat
    . rfl
  . cases action with
    | callTool tool inputJson => simp at haction
    | requestHuman request =>
      constructor
      . rw [hwatch]
        apply hsynced.detector_eq
      . rw [hwatch]
        apply hsynced.cost_eq
      . rw [hwatch]
        apply hsynced.calls_le
    | finish answer =>
      constructor
      . rw [hwatch]
        apply hsynced.detector_eq
      . rw [hwatch]
        apply hsynced.cost_eq
      . rw [hwatch]
        apply hsynced.calls_le
  . rw [hwatch]
    cases action with
    | callTool tool inputJson => simp at haction
    | requestHuman request => rfl
    | finish answer => rfl

theorem InRound.decideTool {l : Locals} (hat : w.At sessionId l.state) (hsynced : Synced e w l)
    (hrun : l.state.status = .running) (hpending : l.state.pendingHitl = none)
    {w' : World} (goal : String) (round : Nat) (transcript : List TranscriptEntry)
    (tools : List String) (tool inputJson : String)
    (hw' : w' = w.record (.decide goal round transcript tools) (.ok (.callTool tool inputJson)))
    : InRound e sessionId w'
        { l with
          detector := (ReActEngine.observeAction l.detector s!"{tool} {inputJson}").1
          cost := l.cost.map CostTracker.recordToolCall }
        (ReActEngine.observeAction l.detector s!"{tool} {inputJson}").2 ∧
      ∀ t, (watch e w'.trace).cost = some t → (watch e w'.trace).calls < t.toolCalls := by
  have hwatch := watch_record (e := e) (w := w) (.decide goal round transcript tools)
    (.ok (.callTool tool inputJson))
  rw [← hw'] at hwatch
  have hcalls : ∀ t, (watch e w'.trace).cost = some t →
      (watch e w'.trace).calls < t.toolCalls := by
    rw [hwatch]
    intro t ht
    simp only [Watch.step, Option.map_eq_some_iff] at ht
    rcases ht with ⟨t', ht', rfl⟩
    have := hsynced.calls_le t' ht'
    simp only [Watch.step, CostTracker.recordToolCall]
    omega
  refine ⟨?_, hcalls⟩
  constructor
  . refine ⟨l.state, [], ?_, hrun, hpending, by simp⟩
    rw [hw', at_record]
    . apply hat
    . rfl
  . constructor
    . rw [hwatch, hsynced.detector_eq]
      rfl
    . rw [hwatch, hsynced.cost_eq]
      rfl
    . intro t ht
      have := hcalls t ht
      omega
  . rw [hwatch, hsynced.detector_eq]
    rfl

theorem justRequested_record (goal : String) (round : Nat) (transcript : List TranscriptEntry)
    (tools : List String) (req : HitlRequest)
    : (w.record (.decide goal round transcript tools) (.ok (.requestHuman req))).JustRequested
        req := by
  refine ⟨goal, round, transcript, tools, ?_⟩
  simp [World.record]

theorem keeps_think (hosts : Hosts) {l : Locals} (h : AtHead e sessionId w l)
    (hrun : l.state.status = .running) (hpending : l.state.pendingHitl = none)
    : Keeps (hostEnv R) (RunGuarantee e sessionId)
        (fun w' r => ∀ l', r = .inl l' → AtHead e sessionId w' l')
        w (ReActEngine.think e hosts l) := by
  unfold ReActEngine.think
  apply keeps_ask_host (fun _ _ => trivial)
  intro available _ _
  have h := h.record .listTools (.ok available) rfl (fun _ => rfl)
  apply keeps_ask_host (fun _ _ => trivial)
  intro action _ _
  cases action with
  | finish answer =>
    have h := InRound.decide h.here h.synced hrun hpending l.state.goal l.state.round
      l.state.transcript available (.finish answer) (by simp)
    dsimp only
    rw [bind_eq, keeps_bind]
    apply (keeps_finish hosts h answer).mono
    intro w' s hw'
    apply keeps_roundBoundary hw'
  | callTool tool inputJson =>
    have h := InRound.decideTool h.here h.synced hrun hpending l.state.goal l.state.round
      l.state.transcript available tool inputJson rfl
    dsimp only
    rw [bind_eq, keeps_bind]
    apply (keeps_callTool hosts h.1 h.2).mono
    intro w' called hw'
    apply keeps_roundBoundary hw'
  | requestHuman request =>
    have h := InRound.decide h.here h.synced hrun hpending l.state.goal l.state.round
      l.state.transcript available (.requestHuman request) (by simp)
    dsimp only
    rw [bind_eq, keeps_bind]
    apply (keeps_requestHuman hosts h (justRequested_record _ _ _ _ request)).mono
    intro w' r hw'
    cases r with
    | inl s =>
      apply keeps_roundBoundary
      apply hw' s rfl
    | inr s => simp

theorem keeps_round (hosts : Hosts) {l : Locals} (h : AtHead e sessionId w l)
    (hrun : l.state.status = .running)
    : Keeps (hostEnv R) (RunGuarantee e sessionId)
        (fun w' r => ∀ l', r = .inl l' → AtHead e sessionId w' l')
        w (ReActEngine.round e hosts l) := by
  unfold ReActEngine.round
  rw [bind_eq, keeps_bind]
  apply (keeps_sampleDirective hosts h hrun).mono
  intro w' r hw'
  cases r with
  | inr s => simp
  | inl s =>
    have h := (hw' s rfl).1
    have hrun := (hw' s rfl).2
    dsimp only
    split
    . next req hpending =>
      rw [bind_eq, keeps_bind]
      apply (keeps_replayHitl h hrun hpending).mono
      intro w'' r hw''
      cases r with
      | inl s => simpa using hw''
      | inr s => simp
    . next hpending =>
      split
      . apply keeps_ask_host
        . intros
          refine ⟨_, h.here, hrun, ?_, by simp⟩
          rw [SessionState.pushUnique_eq_pushed]
          apply SaveStep.roundBudget _ _ hrun
        . simp
      . apply keeps_think hosts h hrun hpending

theorem keeps_loop (fuel : Nat) (hosts : Hosts) {l : Locals} (h : AtHead e sessionId w l)
    : Keeps (hostEnv R) (RunGuarantee e sessionId) (fun _ _ => True)
        w (iterate (ReActEngine.loopBody e hosts) fuel l) := by
  apply keeps_iterate (J := AtHead e sessionId) _ fuel h
  intro w' l hw'
  unfold ReActEngine.loopBody
  split
  . next hrun =>
    apply (keeps_round hosts hw' hrun).mono
    intro w'' r hw''
    cases r with
    | inl l' => apply hw'' l' rfl
    | inr s => trivial
  . trivial

theorem AtHead.load (e : ReActEngine) (sessionId : String) (w : World) (goal : String)
    (projectId : Option String)
    : AtHead e sessionId (w.record .load (.ok w.store))
        (ReActEngine.instruments e (w.store.getD (SessionState.new sessionId goal projectId))) := by
  have hwatch := watch_record (e := e) (w := w) .load (.ok w.store)
  constructor
  . rw [at_record (by rfl)]
    cases hstore : w.store with
    | none =>
      right
      exact ⟨hstore, goal, projectId, rfl⟩
    | some c =>
      left
      exact hstore
  . constructor
    . rw [hwatch]
      rfl
    . rw [hwatch]
      cases w.store with
      | none => rfl
      | some c => rfl
    . rw [hwatch]
      simp [Watch.step, Watch.init]

theorem keeps_load {α : Type} {G : World → (q : Query) → Except CoreError q.Answer → Prop}
    {Q : World → α → Prop} {k : Option SessionState → ReActProg α}
    (hG : ∀ ans, w.honest .load ans → G w .load ans)
    (hk : Keeps (hostEnv R) G Q (w.record .load (.ok w.store)) (k w.store))
    : Keeps (hostEnv R) G Q w (ask .load >>= k) := by
  apply keeps_ask_host hG
  intro existing hhonest _
  simp only [World.honest] at hhonest
  rw [hhonest]
  apply hk

theorem keeps_accept {α : Type} {Q : World → α → Prop} {place : SavePoint} {c s : SessionState}
    {a : α} (hplace : place.external = true) (hat : w.At sessionId c) (hstep : SaveStep place c s)
    (hQ : ∀ w', Q w' a)
    : Keeps (hostEnv R) (AcceptGuarantee sessionId) Q w (do
        ask (.save place s)
        pure a) := by
  apply keeps_ask_host
  . intros
    exact ⟨hplace, c, hat, hstep⟩
  . intros
    apply hQ

theorem at_load {c : SessionState} (h : w.store = some c)
    : (w.record .load (.ok w.store)).At sessionId c := by
  left
  exact h

theorem keeps_acceptControlledResume
    : Keeps (hostEnv R) (AcceptGuarantee sessionId) (fun _ _ => True)
        w ReActEngine.acceptControlledResume := by
  apply keeps_load (fun _ _ => trivial)
  split
  . trivial
  . next c hstore =>
    split
    . next hpaused =>
      apply keeps_accept rfl (at_load hstore) (.resumed _ hpaused)
      simp
    . trivial
    . trivial

theorem keeps_acceptControlledCancel
    : Keeps (hostEnv R) (AcceptGuarantee sessionId) (fun _ _ => True)
        w ReActEngine.acceptControlledCancel := by
  apply keeps_load (fun _ _ => trivial)
  split
  . trivial
  . next c hstore =>
    split
    . next hpaused =>
      apply keeps_accept rfl (at_load hstore) (.cancelAccepted _ (.inl hpaused))
      simp
    . next hrunning =>
      apply keeps_accept rfl (at_load hstore) (.cancelAccepted _ (.inr hrunning))
      simp
    . trivial
    . trivial

theorem keeps_acceptReviewChanges (feedback : String)
    : Keeps (hostEnv R) (AcceptGuarantee sessionId) (fun _ _ => True)
        w (ReActEngine.acceptReviewChanges feedback) := by
  apply keeps_load (fun _ _ => trivial)
  split
  . trivial
  . next c hstore =>
    split
    . trivial
    . next hfinished =>
      dsimp only
      split
      . trivial
      . apply keeps_accept rfl (at_load hstore)
        . apply SaveStep.reopened
          simpa using hfinished
        . simp

theorem keeps_acceptHumanResponse (requestId answer : String)
    : Keeps (hostEnv R) (AcceptGuarantee sessionId) (fun _ _ => True)
        w (ReActEngine.acceptHumanResponse requestId answer) := by
  apply keeps_load (fun _ _ => trivial)
  split
  . trivial
  . next c hstore =>
    split
    . trivial
    . next hawaiting =>
      split
      . trivial
      . next req hpending =>
        split
        . next hid =>
          apply keeps_accept rfl (at_load hstore)
          . rw [← hid]
            apply SaveStep.answered _ _ _ (by simpa using hawaiting) hpending
          . simp
        . trivial

theorem SessionReaches.inv_run {allowed : World → Command → Prop} {I : World → Prop}
    {L : ReActEngine → World → World → Prop}
    (hstart : I World.start)
    (hload : ∀ w ans, I w → I (w.record .load ans))
    (hbegin : ∀ w e goal projectId hosts, allowed w (.run e goal projectId hosts) →
      L e w (w.record .load (.ok w.store)))
    (hrun : ∀ e w₀ w q ans, I w → L e w₀ w → R w q ans → RunGuarantee e sessionId w q ans →
      I (w.record q ans) ∧ L e w₀ (w.record q ans))
    (haccept : ∀ w place c s ans, I w → place.external = true → w.At sessionId c →
      SaveStep place c s → I (w.record (.save place s) ans))
    (hreach : SessionReaches R allowed sessionId w)
    : I w := by
  apply Reaches.inv _ hstart hreach
  rintro w p w' r hI ⟨cmd, fuel, hallowed, rfl⟩ hexec
  have haccepted (p : ReActProg SessionState)
      (hkeeps : Keeps (hostEnv R) (AcceptGuarantee sessionId) (fun _ _ => True) w p)
      (hexec : Exec (hostEnv R) w p w' r)
      : I w' := by
    refine (hkeeps.sound ?_ hI hexec).1
    intro w₁ q ans hI₁ _ hguarantee
    cases q with
    | load => apply hload w₁ ans hI₁
    | save place s =>
      rcases hguarantee with ⟨hplace, c, hat, hstep⟩
      apply haccept w₁ place c s ans hI₁ hplace hat hstep
    | _ => cases hguarantee
  cases cmd with
  | run e goal projectId hosts =>
    have hloop := keeps_loop (R := R) fuel hosts
      (AtHead.load e sessionId w goal projectId)
    have hstep := fun w₁ q ans (h : I w₁ ∧ L e w w₁) (ha : (hostEnv R).allows w₁ q ans) =>
      hrun e w w₁ q ans h.1 h.2 ha.2
    have hbegin := hbegin w e goal projectId hosts hallowed
    cases hexec with
    | crash => exact hI
    | call _ _ _ ans _ _ hans hrest =>
      have hI := hload w ans hI
      cases ans with
      | error err =>
        cases hrest with
        | crash => exact hI
        | fail => exact hI
      | ok existing =>
        have heq : existing = w.store := hans.1
        rw [heq] at hI hrest
        apply (hloop.sound hstep ⟨hI, hbegin⟩ hrest).1.1
  | acceptControlledResume => apply haccepted _ keeps_acceptControlledResume hexec
  | acceptControlledCancel => apply haccepted _ keeps_acceptControlledCancel hexec
  | acceptReviewChanges feedback => apply haccepted _ (keeps_acceptReviewChanges feedback) hexec
  | acceptHumanResponse requestId answer =>
    apply haccepted _ (keeps_acceptHumanResponse requestId answer) hexec

theorem SessionReaches.inv {allowed : World → Command → Prop} {I : World → Prop}
    (hstart : I World.start)
    (hload : ∀ w ans, I w → I (w.record .load ans))
    (hrun : ∀ e w q ans, I w → R w q ans → RunGuarantee e sessionId w q ans → I (w.record q ans))
    (haccept : ∀ w place c s ans, I w → place.external = true → w.At sessionId c →
      SaveStep place c s → I (w.record (.save place s) ans))
    (hreach : SessionReaches R allowed sessionId w)
    : I w := by
  apply SessionReaches.inv_run (L := fun _ _ _ => True) hstart hload _ _ haccept hreach
  . intros
    trivial
  . intro e _ w q ans hI _ hR hguarantee
    exact ⟨hrun e w q ans hI hR hguarantee, trivial⟩

end Agent
end MemStack
