import MemStack.Util.Lists
import MemStack.Agent.React.Keeps

/-!
This module contains what holds along the checkpoints of a session, whatever the planner, the tools,
the control channel and the host do and wherever the engine is killed.
-/

namespace MemStack
namespace Agent

open History Port

def Event.checkpoint : Event → Option SessionState
  | ⟨.save _ s, .ok _⟩ => some s
  | _ => none

def checkpoints (trace : List Event) : List SessionState :=
  trace.filterMap Event.checkpoint

@[simp]
theorem checkpoints_concat (trace : List Event) (ev : Event)
    : checkpoints (trace ++ [ev]) = checkpoints trace ++ ev.checkpoint.toList := by
  cases h : ev.checkpoint <;> simp [checkpoints, h]

structure Follows (c s : SessionState) : Prop where
  round_le : c.round ≤ s.round
  transcript : c.transcript <+: s.transcript
  completedToolCalls : c.completedToolCalls <+: s.completedToolCalls
  appliedSteeringIds : c.appliedSteeringIds <+: s.appliedSteeringIds
  not_cancelled : c.status ≠ .cancelled
  not_failed : c.status ≠ .failed

theorem Follows.trans {a b c : SessionState} (hab : Follows a b) (hbc : Follows b c)
    : Follows a c where
  round_le := hab.round_le.trans hbc.round_le
  transcript := hab.transcript.trans hbc.transcript
  completedToolCalls := hab.completedToolCalls.trans hbc.completedToolCalls
  appliedSteeringIds := hab.appliedSteeringIds.trans hbc.appliedSteeringIds
  not_cancelled := hab.not_cancelled
  not_failed := hab.not_failed

theorem SaveStep.follows {place : SavePoint} {c s : SessionState} (h : SaveStep place c s)
    : Follows c s := by
  cases h <;> constructor <;>
    simp_all [SessionState.pushUnique_eq_pushed, SessionState.pushed, SessionState.steered,
      SessionState.recordHitlAnswer]
  all_goals
    grind

theorem SaveStep.pending {place : SavePoint} {c s : SessionState} (h : SaveStep place c s)
    (hawaiting : s.status = .awaitingInput)
    : s.pendingHitl.isSome := by
  cases h <;> simp_all

def NotRepeated (before : List Event) : Event → Prop
  | ⟨.call round tool inputJson, _⟩ =>
    ∀ c, (checkpoints before).getLast? = some c →
      ∀ call ∈ c.completedToolCalls,
        ¬ (call.round = round ∧ call.tool = tool ∧ call.inputJson = inputJson)
  | _ => True

structure CheckpointsSound (trace : List Event) : Prop where
  not_repeated : AtEach NotRepeated trace
  follows : (checkpoints trace).Pairwise Follows
  pending : ∀ c ∈ checkpoints trace, c.status = .awaitingInput → c.pendingHitl.isSome

def CheckpointsInv (w : World) : Prop :=
  w.store = (checkpoints w.trace).getLast? ∧ CheckpointsSound w.trace

section Inv

variable {w : World} {sessionId : String}

theorem CheckpointsInv.quiet (h : CheckpointsInv w) (q : Query) (ans : Except CoreError q.Answer)
    (hstored : w.stored q ans = w.store) (hcheckpoint : Event.checkpoint ⟨q, ans⟩ = none)
    (hcall : NotRepeated w.trace ⟨q, ans⟩)
    : CheckpointsInv (w.record q ans) := by
  have heq : checkpoints (w.record q ans).trace = checkpoints w.trace := by
    simp [World.record, hcheckpoint]
  constructor
  . rw [heq, ← h.1]
    apply hstored
  . constructor
    . simp only [World.record, atEach_concat]
      exact ⟨h.2.not_repeated, hcall⟩
    . rw [heq]
      apply h.2.follows
    . rw [heq]
      apply h.2.pending

theorem CheckpointsInv.save (h : CheckpointsInv w) {place : SavePoint} {c s : SessionState}
    (hat : w.At sessionId c) (hstep : SaveStep place c s)
    (ans : Except CoreError (Query.save place s).Answer)
    : CheckpointsInv (w.record (.save place s) ans) := by
  cases ans with
  | error err =>
    apply h.quiet
    . rfl
    . rfl
    . trivial
  | ok _ =>
    have heq : checkpoints (w.record (.save place s) (.ok ())).trace
        = checkpoints w.trace ++ [s] := by
      simp [World.record, Event.checkpoint]
    have hlast : ∀ b, (checkpoints w.trace).getLast? = some b → Follows b s := by
      intro b hb
      rw [← h.1] at hb
      cases hat with
      | inl hat =>
        rw [hat, Option.some.injEq] at hb
        rw [← hb]
        apply hstep.follows
      | inr hat => simp [hat.1] at hb
    constructor
    . rw [heq]
      simp [World.record, World.stored]
    . constructor
      . simp only [World.record, atEach_concat]
        exact ⟨h.2.not_repeated, trivial⟩
      . rw [heq]
        apply pairwise_concat (fun _ _ _ hab hbc => hab.trans hbc) h.2.follows hlast
      . rw [heq]
        intro c' hc'
        rw [List.mem_append, List.mem_singleton] at hc'
        cases hc' with
        | inl hc' => apply h.2.pending c' hc'
        | inr hc' =>
          rw [hc']
          apply hstep.pending

theorem CheckpointsInv.call (h : CheckpointsInv w) {round : Nat} {tool inputJson : String}
    {c : SessionState} (hat : w.At sessionId c)
    (hnew : c.completedCall round tool inputJson = none) (ans : Except CoreError String)
    : NotRepeated w.trace ⟨.call round tool inputJson, ans⟩ := by
  intro c' hc' call hcall
  rw [← h.1] at hc'
  cases hat with
  | inl hat =>
    rw [hat, Option.some.injEq] at hc'
    rw [← hc'] at hcall
    simp only [SessionState.completedCall, List.find?_eq_none] at hnew
    have := hnew call hcall
    simp at this
    simpa using this
  | inr hat => simp [hat.1] at hc'

theorem CheckpointsInv.run (h : CheckpointsInv w) {e : ReActEngine} {q : Query}
    {ans : Except CoreError q.Answer} (hguarantee : RunGuarantee e sessionId w q ans)
    : CheckpointsInv (w.record q ans) := by
  cases q with
  | save place s =>
    rcases hguarantee with ⟨c, hat, -, hstep, -⟩
    apply h.save hat hstep
  | call round tool inputJson =>
    rcases hguarantee with ⟨⟨c, hat, -, -, hnew⟩, -⟩
    apply h.quiet _ _ rfl rfl
    apply h.call hat hnew
  | _ => exact h.quiet _ ans rfl rfl trivial

end Inv

theorem checkpoints_sound (sessionId : String) (w : World)
    (h : SessionReaches (fun _ _ _ => True) (fun _ _ => True) sessionId w)
    : CheckpointsSound w.trace := by
  have hinv : CheckpointsInv w := by
    apply SessionReaches.inv _ _ _ _ h
    . constructor
      . rfl
      . constructor
        . apply atEach_nil
        . apply List.Pairwise.nil
        . simp [checkpoints, World.start]
    . intro w ans hI
      exact hI.quiet _ ans rfl rfl trivial
    . intro e w q ans hI _ hguarantee
      apply hI.run hguarantee
    . intro w place c s ans hI _ hat hstep
      apply hI.save hat hstep
  apply hinv.2

-- A tool is called in round 0 and a human is asked in round 1. The engine is killed right after the
-- output of the tool was saved, and again while the answer of the human is replayed.
def askAfterLookup : Script where
  directive _ := .continue
  planner _ round :=
    match round with
    | 0 => .callTool "lookup" "x"
    | 1 => .requestHuman ⟨"q", .decision, "go on?"⟩
    | _ => .finish "done"
  tool _ _ := .ok "found"
  verdict := ⟨.healthy, .continue, ""⟩

def plainEngine : ReActEngine where
  maxRounds := 8
  doomCfg := none
  costBudget := none
  terminalTools := []
  supervisor := false

def askAfterLookupWorld : World :=
  askAfterLookup.play "s" World.start
    [(.run plainEngine "g" none ⟨false, false⟩, 9, 4),
      (.run plainEngine "g" none ⟨false, false⟩, 9, 99),
      (.acceptHumanResponse "q" "yes", 9, 99),
      (.run plainEngine "g" none ⟨false, false⟩, 9, 2),
      (.run plainEngine "g" none ⟨false, false⟩, 9, 99)]

theorem askAfterLookup_sound
    : (checkpoints askAfterLookupWorld.trace).map SessionState.status
        = [.running, .running, .awaitingInput, .running, .running, .finished] ∧
      CheckpointsSound askAfterLookupWorld.trace := by
  refine ⟨by decide, checkpoints_sound "s" _ ?_⟩
  apply Script.reaches_play
  . simp
  . apply Prog.Reaches.refl
  . simp

end Agent
end MemStack
