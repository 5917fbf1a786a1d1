import MemStack.Agent.React.Checkpoints

/-!
This module is about the answers of humans: a request of the planner may only be satisfied by an answer that was
given to it.
-/

namespace MemStack
namespace Agent

open History Port

def suspends (round : Nat) (req : HitlRequest) : Event → Bool
  | ⟨.save .suspend s, .ok _⟩ => s.round = round ∧ s.pendingHitl = some req
  | _ => false

def answers (round : Nat) (req : HitlRequest) (answer : String) : Event → Bool
  | ⟨.save .answered s, .ok _⟩ =>
    s.round = round ∧ s.pendingHitl = some req ∧ s.hitlAnswer req.id = some answer
  | _ => false

def Granted (trace : List Event) (round : Nat) (req : HitlRequest) (answer : String) : Prop :=
  ∃ before ev after, trace = before ++ ev :: after ∧ answers round req answer ev ∧
    ∃ ev' ∈ before, suspends round req ev'

def Authorised (before : List Event) : Event → Prop
  | ⟨.satisfied round req answer, _⟩ => Granted before round req answer
  | _ => True

def FreshIds (w : World) : (q : Query) → Except CoreError q.Answer → Prop
  | .decide .., .ok (.requestHuman req) => ∀ c, w.store = some c → c.hitlAnswer req.id = none
  | _, _ => True

structure AnswersInv (w : World) : Prop where
  authorised : AtEach Authorised w.trace
  asked : ∀ c req, w.store = some c → c.pendingHitl = some req →
    ∃ ev ∈ w.trace, suspends c.round req ev
  granted : ∀ c req answer, w.store = some c → c.pendingHitl = some req →
    c.hitlAnswer req.id = some answer → Granted w.trace c.round req answer
  unanswered : ∀ req, w.JustRequested req → ∀ c, w.store = some c → c.hitlAnswer req.id = none

theorem Granted.concat {trace : List Event} {round : Nat} {req : HitlRequest} {answer : String}
    (h : Granted trace round req answer) (ev : Event)
    : Granted (trace ++ [ev]) round req answer := by
  rcases h with ⟨before, ev', after, heq, h⟩
  refine ⟨before, ev', after ++ [ev], ?_, h⟩
  simp [heq]

theorem SaveStep.pending_cases {place : SavePoint} {c s : SessionState} {req : HitlRequest}
    (h : SaveStep place c s) (hpending : s.pendingHitl = some req)
    : (place = .suspend ∧ s.hitlAnswer req.id = none) ∨
      (place = .answered ∧ c.pendingHitl = some req ∧ s.round = c.round) ∨
      (c.pendingHitl = some req ∧ s.round = c.round ∧ s.hitlResponses = c.hitlResponses) := by
  cases h <;>
    simp_all [SessionState.pushUnique_eq_pushed, SessionState.pushed, SessionState.steered,
      SessionState.recordHitlAnswer, SessionState.hitlAnswer]

section Inv

variable {w : World} {sessionId : String}

theorem store_of_pending {c : SessionState} {req : HitlRequest} (hat : w.At sessionId c)
    (hpending : c.pendingHitl = some req)
    : w.store = some c := by
  cases hat with
  | inl hat => exact hat
  | inr hat =>
    rcases hat.2 with ⟨goal, projectId, rfl⟩
    simp [SessionState.new] at hpending

theorem not_justRequested {q : Query} {ans : Except CoreError q.Answer} {req : HitlRequest}
    (hq : ∀ goal round transcript tools, q ≠ .decide goal round transcript tools)
    : ¬ (w.record q ans).JustRequested req := by
  rintro ⟨goal, round, transcript, tools, h⟩
  simp only [World.record, List.getLast?_append, List.getLast?_singleton, Option.some_or,
    Option.some.injEq, Event.mk.injEq] at h
  apply hq _ _ _ _ h.1

theorem AnswersInv.quiet (h : AnswersInv w) (q : Query) (ans : Except CoreError q.Answer)
    (hstored : w.stored q ans = w.store) (hauthorised : Authorised w.trace ⟨q, ans⟩)
    (hlast : ∀ req, (w.record q ans).JustRequested req → ∀ c, w.store = some c →
      c.hitlAnswer req.id = none)
    : AnswersInv (w.record q ans) := by
  constructor
  . simp only [World.record, atEach_concat]
    exact ⟨h.authorised, hauthorised⟩
  . intro c req hc hpending
    simp only [World.record, hstored] at hc ⊢
    rcases h.asked c req hc hpending with ⟨ev, hmem, hev⟩
    exact ⟨ev, by simp [hmem], hev⟩
  . intro c req answer hc hpending hanswer
    simp only [World.record, hstored] at hc ⊢
    apply (h.granted c req answer hc hpending hanswer).concat
  . intro req hreq c hc
    simp only [World.record, hstored] at hc
    apply hlast req hreq c hc

theorem AnswersInv.save (h : AnswersInv w) {place : SavePoint} {c s : SessionState}
    (hat : w.At sessionId c) (hstep : SaveStep place c s)
    (ans : Except CoreError (Query.save place s).Answer)
    : AnswersInv (w.record (.save place s) ans) := by
  have hlast : ∀ req, ¬ (w.record (.save place s) ans).JustRequested req := by
    intro req
    apply not_justRequested
    simp
  cases ans with
  | error err =>
    apply h.quiet
    . rfl
    . trivial
    . simp [hlast]
  | ok _ =>
    constructor
    . simp only [World.record, atEach_concat]
      exact ⟨h.authorised, trivial⟩
    . intro c' req hc' hpending
      simp only [World.record, World.stored, Option.some.injEq] at hc' ⊢
      rw [← hc'] at hpending ⊢
      rcases hstep.pending_cases hpending with hcase | hcase | hcase
      . rcases hcase with ⟨rfl, -⟩
        refine ⟨_, List.mem_append_right _ (List.mem_singleton_self _), ?_⟩
        simp [suspends, hpending]
      . rcases h.asked c req (store_of_pending hat hcase.2.1) hcase.2.1 with ⟨ev, hmem, hev⟩
        rw [hcase.2.2]
        exact ⟨ev, by simp [hmem], hev⟩
      . rcases h.asked c req (store_of_pending hat hcase.1) hcase.1 with ⟨ev, hmem, hev⟩
        rw [hcase.2.1]
        exact ⟨ev, by simp [hmem], hev⟩
    . intro c' req answer hc' hpending hanswer
      simp only [World.record, World.stored, Option.some.injEq] at hc' ⊢
      rw [← hc'] at hpending hanswer ⊢
      rcases hstep.pending_cases hpending with hcase | hcase | hcase
      . simp [hcase.2] at hanswer
      . rcases hcase with ⟨rfl, hbefore, hround⟩
        rcases h.asked c req (store_of_pending hat hbefore) hbefore with ⟨ev, hmem, hev⟩
        refine ⟨w.trace, _, [], rfl, ?_, ev, hmem, ?_⟩
        . simp [answers, hpending, hanswer]
        . rw [hround]
          exact hev
      . rw [SessionState.hitlAnswer, hcase.2.2] at hanswer
        rw [hcase.2.1]
        apply (h.granted c req answer (store_of_pending hat hcase.1) hcase.1 hanswer).concat
    . simp [hlast]

theorem AnswersInv.satisfied (h : AnswersInv w) {c : SessionState} (hat : w.At sessionId c)
    {req : HitlRequest} {answer : String} (hanswer : c.hitlAnswer req.id = some answer)
    (hcase : c.pendingHitl = some req ∨ w.JustRequested req)
    : Granted w.trace c.round req answer := by
  cases hcase with
  | inl hpending => apply h.granted c req answer (store_of_pending hat hpending) hpending hanswer
  | inr hlast =>
    cases hat with
    | inl hat => simp [h.unanswered req hlast c hat] at hanswer
    | inr hat =>
      rcases hat.2 with ⟨goal, projectId, rfl⟩
      simp [SessionState.hitlAnswer, SessionState.new] at hanswer

theorem AnswersInv.run (h : AnswersInv w) {e : ReActEngine} {q : Query}
    {ans : Except CoreError q.Answer} (hfresh : FreshIds w q ans)
    (hguarantee : RunGuarantee e sessionId w q ans)
    : AnswersInv (w.record q ans) := by
  have hquiet (hq : ∀ goal round transcript tools, q ≠ .decide goal round transcript tools)
      : ∀ req, (w.record q ans).JustRequested req → ∀ c, w.store = some c →
        c.hitlAnswer req.id = none := by
    intro req hreq
    cases not_justRequested hq hreq
  cases q with
  | save place s =>
    rcases hguarantee with ⟨c, hat, -, hstep, -⟩
    apply h.save hat hstep
  | satisfied round req answer =>
    rcases hguarantee with ⟨c, hat, -, rfl, hanswer, hcase⟩
    exact h.quiet _ ans rfl (h.satisfied hat hanswer hcase) (hquiet (by simp))
  | decide goal round transcript tools =>
    apply h.quiet _ ans rfl trivial
    rintro req ⟨goal', round', transcript', tools', hreq⟩
    simp only [World.record, List.getLast?_append, List.getLast?_singleton, Option.some_or,
      Option.some.injEq, Event.mk.injEq, Query.decide.injEq] at hreq
    rcases hreq with ⟨⟨rfl, rfl, rfl, rfl⟩, hans⟩
    rw [eq_of_heq hans] at hfresh
    apply hfresh
  | _ => exact h.quiet _ ans rfl trivial (hquiet (by simp))

end Inv

theorem answers_authorised (sessionId : String) (w : World)
    (h : SessionReaches FreshIds (fun _ _ => True) sessionId w)
    : AtEach Authorised w.trace := by
  have hinv : AnswersInv w := by
    apply SessionReaches.inv _ _ _ _ h
    . constructor <;> simp [World.start, World.JustRequested]
    . intro w ans hI
      apply hI.quiet _ ans rfl trivial
      intro req hreq
      cases not_justRequested (by simp) hreq
    . intro e w q ans hI hfresh hguarantee
      apply hI.run hfresh hguarantee
    . intro w place c s ans hI _ hat hstep
      apply hI.save hat hstep
  apply hinv.authorised

def draftRequest : HitlRequest where
  id := "confirm"
  kind := .decision
  prompt := "delete the draft?"

def databaseRequest : HitlRequest where
  id := "confirm"
  kind := .permission
  prompt := "delete the production database?"

def draftScript : Script where
  directive _ := .continue
  planner w _ :=
    if w.store.any fun c => (c.hitlAnswer draftRequest.id).isSome then
      .finish "done"
    else
      .requestHuman draftRequest
  tool _ _ := .ok ""
  verdict := ⟨.healthy, .continue, ""⟩

def confirmCommands : List (Command × Nat × Nat) :=
  [(.run plainEngine "g" none ⟨false, false⟩, 9, 99),
    (.acceptHumanResponse "confirm" "yes", 9, 99),
    (.run plainEngine "g" none ⟨false, false⟩, 9, 99)]

theorem answers_authorised_draft
    : (draftScript.play "s" World.start confirmCommands).trace.any
        (fun ev => ev.query = .satisfied 0 draftRequest "yes") ∧
      AtEach Authorised (draftScript.play "s" World.start confirmCommands).trace := by
  refine ⟨by decide, answers_authorised "s" _ ?_⟩
  apply Script.reaches_play
  . intro w q
    cases q with
    | decide goal round transcript tools =>
      simp only [Script.answer, draftScript]
      split
      . trivial
      . next hnone =>
        intro c hc
        simpa [hc] using hnone
    | _ => trivial
  . apply Prog.Reaches.refl
  . simp

def databaseScript : Script where
  directive _ := .continue
  planner _ round :=
    match round with
    | 0 => .requestHuman draftRequest
    | 1 => .requestHuman databaseRequest
    | _ => .finish "done"
  tool _ _ := .ok ""
  verdict := ⟨.healthy, .continue, ""⟩

theorem stale_answer_authorises
    : ∃ w, SessionReaches (fun _ _ _ => True) (fun _ _ => True) "s" w ∧
        ¬ AtEach Authorised w.trace := by
  refine ⟨databaseScript.play "s" World.start confirmCommands, ?_, ?_⟩
  . apply Script.reaches_play
    . simp
    . apply Prog.Reaches.refl
    . simp
  . intro h
    have hlast := h.get (n := 12) (a := ⟨.satisfied 1 databaseRequest "yes", .ok ()⟩) rfl
    rcases hlast with ⟨before, _, after, heq, -, ev, hev, hsuspends⟩
    have hnever : ∀ ev ∈ (databaseScript.play "s" World.start confirmCommands).trace.take 12,
        suspends 1 databaseRequest ev = false := by
      decide
    have := hnever ev (by simp [heq, hev])
    simp [this] at hsuspends

end Agent
end MemStack
