import MemStack.Agent.React.Checkpoints

/-!
This module is about the instructions a human gives to a running session.
-/

namespace MemStack
namespace Agent

open History Port

def Event.acknowledges : Event → Option String
  | ⟨.acknowledgeSteering id _, _⟩ => some id
  | _ => none

def acknowledged (trace : List Event) : List String :=
  trace.filterMap Event.acknowledges

structure Tally where
  transcript : List TranscriptEntry
  lines : List (Nat × SteeringInstruction)

namespace Tally

def step (t : Tally) : Event → Tally
  | ⟨.save (.steer instruction) s, .ok _⟩ =>
    { transcript := s.transcript
      lines :=
        if t.transcript.length < s.transcript.length then
          t.lines ++ [(t.transcript.length, instruction)]
        else
          t.lines }
  | ⟨.save _ s, .ok _⟩ => { t with transcript := s.transcript }
  | _ => t

end Tally

def tally (trace : List Event) : Tally :=
  trace.foldl Tally.step { transcript := [], lines := [] }

structure SteeringSound (trace : List Event) : Prop where
  -- a line that was added for an instruction is a human line with its content and stays where it is
  line : ∀ p ∈ (tally trace).lines,
    ∃ round, (tally trace).transcript[p.1]? = some ⟨round, .human, p.2.content⟩
  apart : ((tally trace).lines.map Prod.fst).Nodup
  own : ∀ id ∈ acknowledged trace, (tally trace).lines.countP (fun p => p.2.id = id) = 1
  count : (tally trace).lines.countP (fun p => p.2.id ∈ acknowledged trace)
    = (acknowledged trace).dedup.length

def FreshContent (w : World) : (q : Query) → Except CoreError q.Answer → Prop
  | .directive _, .ok (.steer instruction) =>
    ∀ c, w.store = some c → instruction.id ∉ c.appliedSteeringIds →
      ⟨c.round, .human, instruction.content⟩ ∉ c.transcript
  | _, _ => True

structure SteeringInv (w : World) : Prop where
  transcript : (tally w.trace).transcript = (w.store.map SessionState.transcript).getD []
  applied : (tally w.trace).lines.map (·.2.id)
    = (w.store.map SessionState.appliedSteeringIds).getD []
  nodup : ((tally w.trace).lines.map (·.2.id)).Nodup
  acknowledged : ∀ id ∈ acknowledged w.trace, id ∈ (tally w.trace).lines.map (·.2.id)
  line : ∀ p ∈ (tally w.trace).lines,
    ∃ round, (tally w.trace).transcript[p.1]? = some ⟨round, .human, p.2.content⟩
  apart : ((tally w.trace).lines.map Prod.fst).Nodup
  fresh : ∀ instruction, w.JustSteered instruction → ∀ c, w.store = some c →
    instruction.id ∉ c.appliedSteeringIds → ⟨c.round, .human, instruction.content⟩ ∉ c.transcript

@[simp]
theorem tally_concat (trace : List Event) (ev : Event)
    : tally (trace ++ [ev]) = (tally trace).step ev := by
  simp [tally]

@[simp]
theorem acknowledged_concat (trace : List Event) (ev : Event)
    : acknowledged (trace ++ [ev]) = acknowledged trace ++ ev.acknowledges.toList := by
  cases h : ev.acknowledges <;> simp [acknowledged, h]

section Inv

variable {w : World} {sessionId : String}

theorem SteeringInv.sound (h : SteeringInv w) : SteeringSound w.trace := by
  constructor
  . apply h.line
  . apply h.apart
  . intro id hid
    have hmem := h.acknowledged id hid
    have hcount := List.count_eq_one_of_mem h.nodup hmem
    rw [List.count, List.countP_map] at hcount
    rw [← hcount]
    apply List.countP_congr
    simp
  . have hnodup := h.nodup.filter (fun id => decide (id ∈ Agent.acknowledged w.trace))
    have heq : (Agent.acknowledged w.trace).toFinset
        = (((tally w.trace).lines.map (·.2.id)).filter
            (fun id => decide (id ∈ Agent.acknowledged w.trace))).toFinset := by
      ext id
      have := h.acknowledged id
      simp only [List.mem_toFinset, List.mem_filter, decide_eq_true_eq]
      tauto
    rw [← List.card_toFinset, heq, List.toFinset_card_of_nodup hnodup, ← List.countP_eq_length_filter,
      List.countP_map]
    rfl

theorem not_justSteered {q : Query} {ans : Except CoreError q.Answer}
    {instruction : SteeringInstruction} (hq : ∀ round, q ≠ .directive round)
    : ¬ (w.record q ans).JustSteered instruction := by
  rintro ⟨round, h⟩
  simp only [World.record, List.getLast?_append, List.getLast?_singleton, Option.some_or,
    Option.some.injEq, Event.mk.injEq] at h
  apply hq _ h.1

theorem SteeringInv.quiet (h : SteeringInv w) (q : Query) (ans : Except CoreError q.Answer)
    (hstored : w.stored q ans = w.store) (htally : ∀ t : Tally, t.step ⟨q, ans⟩ = t)
    (hack : ∀ id, Event.acknowledges ⟨q, ans⟩ = some id → id ∈ (tally w.trace).lines.map (·.2.id))
    (hlast : ∀ instruction, (w.record q ans).JustSteered instruction → ∀ c, w.store = some c →
      instruction.id ∉ c.appliedSteeringIds →
        ⟨c.round, .human, instruction.content⟩ ∉ c.transcript)
    : SteeringInv (w.record q ans) := by
  have heq : tally (w.record q ans).trace = tally w.trace := by
    simp [World.record, htally]
  have hstore : (w.record q ans).store = w.store := hstored
  constructor
  . rw [heq, hstore]
    apply h.transcript
  . rw [heq, hstore]
    apply h.applied
  . rw [heq]
    apply h.nodup
  . intro id hid
    rw [heq]
    simp only [World.record, acknowledged_concat, List.mem_append, Option.mem_toList] at hid
    cases hid with
    | inl hid => apply h.acknowledged id hid
    | inr hid => apply hack id hid
  . rw [heq]
    apply h.line
  . rw [heq]
    apply h.apart
  . rw [hstore]
    apply hlast

theorem SaveStep.appliedSteeringIds_eq {place : SavePoint} {c s : SessionState}
    (h : SaveStep place c s) (hplace : ∀ instruction, place ≠ .steer instruction)
    : s.appliedSteeringIds = c.appliedSteeringIds := by
  cases h <;>
    simp_all [SessionState.pushUnique_eq_pushed, SessionState.pushed,
      SessionState.recordHitlAnswer]

theorem At.store_eq {c : SessionState} (hat : w.At sessionId c)
    : (w.store.map SessionState.transcript).getD [] = c.transcript ∧
        (w.store.map SessionState.appliedSteeringIds).getD [] = c.appliedSteeringIds := by
  cases hat with
  | inl hat => simp [hat]
  | inr hat =>
    rcases hat.2 with ⟨goal, projectId, rfl⟩
    simp [hat.1, SessionState.new]

theorem tally_step_save {place : SavePoint} (hplace : ∀ instruction, place ≠ .steer instruction)
    (t : Tally) (s : SessionState)
    : t.step ⟨.save place s, .ok ()⟩ = { t with transcript := s.transcript } := by
  cases place with
  | steer instruction => simp at hplace
  | _ => rfl

theorem SteeringInv.line_of_prefix (h : SteeringInv w) (transcript : List TranscriptEntry)
    (hgrow : (tally w.trace).transcript <+: transcript)
    : ∀ p ∈ (tally w.trace).lines,
        ∃ round, transcript[p.1]? = some ⟨round, .human, p.2.content⟩ := by
  intro p hp
  rcases h.line p hp with ⟨round, hline⟩
  refine ⟨round, ?_⟩
  rcases hgrow with ⟨rest, rfl⟩
  rw [List.getElem?_append_left]
  . exact hline
  . apply (List.getElem?_eq_some_iff.mp hline).1

theorem SteeringInv.saved (h : SteeringInv w) {place : SavePoint} {c s : SessionState}
    (hat : w.At sessionId c) (hstep : SaveStep place c s)
    (hplace : ∀ instruction, place ≠ .steer instruction)
    : SteeringInv (w.record (.save place s) (.ok ())) := by
  have htally : tally (w.record (.save place s) (.ok ())).trace
      = { tally w.trace with transcript := s.transcript } := by
    simp only [World.record, tally_concat]
    apply tally_step_save hplace
  constructor
  . rw [htally]
    rfl
  . rw [htally, h.applied, (At.store_eq hat).2, ← hstep.appliedSteeringIds_eq hplace]
    rfl
  . rw [htally]
    apply h.nodup
  . rw [htally]
    simpa [World.record, Event.acknowledges] using h.acknowledged
  . rw [htally]
    apply h.line_of_prefix
    rw [h.transcript, (At.store_eq hat).1]
    apply hstep.follows.transcript
  . rw [htally]
    apply h.apart
  . intro instruction hlast
    cases not_justSteered (by simp) hlast

theorem SteeringInv.steered (h : SteeringInv w) {c : SessionState} (hat : w.At sessionId c)
    {instruction : SteeringInstruction} (hnew : instruction.id ∉ c.appliedSteeringIds)
    (hlast : w.JustSteered instruction)
    : SteeringInv (w.record (.save (.steer instruction) (c.steered instruction)) (.ok ())) := by
  have hfresh : ⟨c.round, .human, instruction.content⟩ ∉ c.transcript := by
    cases hat with
    | inl hat => apply h.fresh instruction hlast c hat hnew
    | inr hat =>
      rcases hat.2 with ⟨goal, projectId, rfl⟩
      simp [SessionState.new]
  have htranscript : (c.steered instruction).transcript
      = c.transcript ++ [⟨c.round, .human, instruction.content⟩] := by
    simp [SessionState.steered, SessionState.pushUnique, hfresh]
  have hbefore : (tally w.trace).transcript = c.transcript := by
    rw [h.transcript, (At.store_eq hat).1]
  have happlied : (tally w.trace).lines.map (·.2.id) = c.appliedSteeringIds := by
    rw [h.applied, (At.store_eq hat).2]
  have htally : tally
      (w.record (.save (.steer instruction) (c.steered instruction)) (.ok ())).trace
      = { transcript := c.transcript ++ [⟨c.round, .human, instruction.content⟩]
          lines := (tally w.trace).lines ++ [(c.transcript.length, instruction)] } := by
    simp [World.record, Tally.step, hbefore, htranscript]
  have hline := h.line_of_prefix (c.steered instruction).transcript
    (by simp [hbefore, htranscript])
  rw [htranscript] at hline
  constructor
  . rw [htally, ← htranscript]
    rfl
  . rw [htally, List.map_append, happlied]
    simp [World.record, World.stored]
  . have hnodup := h.nodup
    rw [happlied] at hnodup
    rw [htally, List.map_append, happlied]
    rw [List.nodup_append]
    refine ⟨hnodup, by simp, ?_⟩
    intro id hid id' hid' heq
    simp only [List.map_cons, List.map_nil, List.mem_singleton] at hid'
    rw [heq, hid'] at hid
    apply hnew hid
  . intro id hid
    rw [htally, List.map_append, List.mem_append]
    left
    apply h.acknowledged
    simpa [World.record, Event.acknowledges] using hid
  . rw [htally]
    intro p hp
    rw [List.mem_append, List.mem_singleton] at hp
    cases hp with
    | inl hp => apply hline p hp
    | inr hp =>
      rw [hp]
      refine ⟨c.round, ?_⟩
      simp
  . have hlt : ∀ p ∈ (tally w.trace).lines, p.1 < c.transcript.length := by
      intro p hp
      rcases h.line p hp with ⟨round, hget⟩
      rw [hbefore] at hget
      apply (List.getElem?_eq_some_iff.mp hget).1
    rw [htally, List.map_append, List.nodup_append]
    refine ⟨h.apart, by simp, ?_⟩
    intro n hn m hm
    rcases List.mem_map.mp hn with ⟨p, hp, rfl⟩
    have := hlt p hp
    simp only [List.map_cons, List.map_nil, List.mem_singleton] at hm
    omega
  . intro instruction hlast
    cases not_justSteered (by simp) hlast

theorem SteeringInv.save (h : SteeringInv w) {place : SavePoint} {c s : SessionState}
    (hat : w.At sessionId c) (hstep : SaveStep place c s)
    (hsteer : ∀ instruction, place = .steer instruction → w.JustSteered instruction)
    (ans : Except CoreError (Query.save place s).Answer)
    : SteeringInv (w.record (.save place s) ans) := by
  cases ans with
  | error err =>
    apply h.quiet _ _ rfl
    . intro t
      cases place <;> rfl
    . simp [Event.acknowledges]
    . intro instruction hlast
      cases not_justSteered (by simp) hlast
  | ok _ =>
    by_cases hplace : ∃ instruction, place = .steer instruction
    . rcases hplace with ⟨instruction, rfl⟩
      cases hstep with
      | steer _ _ _ hnew => apply h.steered hat hnew (hsteer instruction rfl)
    . apply h.saved hat hstep
      intro instruction heq
      apply hplace ⟨instruction, heq⟩

theorem SteeringInv.run (h : SteeringInv w) {e : ReActEngine} {q : Query}
    {ans : Except CoreError q.Answer} (hfresh : FreshContent w q ans)
    (hguarantee : RunGuarantee e sessionId w q ans)
    : SteeringInv (w.record q ans) := by
  have hquiet (hq : ∀ round, q ≠ .directive round)
      : ∀ instruction, (w.record q ans).JustSteered instruction → ∀ c, w.store = some c →
        instruction.id ∉ c.appliedSteeringIds →
          ⟨c.round, .human, instruction.content⟩ ∉ c.transcript := by
    intro instruction hlast
    cases not_justSteered hq hlast
  cases q with
  | save place s =>
    rcases hguarantee with ⟨c, hat, -, hstep, -, hsteer⟩
    apply h.save hat hstep hsteer
  | acknowledgeSteering id round =>
    rcases hguarantee with ⟨c, hat, hid⟩
    apply h.quiet _ ans rfl (fun _ => rfl) _ (hquiet (by simp))
    intro id' hid'
    simp only [Event.acknowledges, Option.some.injEq] at hid'
    rw [← hid', h.applied, (At.store_eq hat).2]
    exact hid
  | directive round =>
    apply h.quiet _ ans rfl (fun _ => rfl) (by simp [Event.acknowledges])
    rintro instruction ⟨round', hlast⟩
    simp only [World.record, List.getLast?_append, List.getLast?_singleton, Option.some_or,
      Option.some.injEq, Event.mk.injEq, Query.directive.injEq] at hlast
    rcases hlast with ⟨rfl, hans⟩
    rw [eq_of_heq hans] at hfresh
    apply hfresh
  | load => cases hguarantee
  | _ =>
    exact h.quiet _ ans rfl (fun _ => rfl) (by simp [Event.acknowledges])
      (hquiet (by simp))

end Inv

theorem steering_sound (sessionId : String) (w : World)
    (h : SessionReaches FreshContent (fun _ _ => True) sessionId w)
    : SteeringSound w.trace := by
  have hinv : SteeringInv w := by
    apply SessionReaches.inv _ _ _ _ h
    . constructor <;> simp [World.start, World.JustSteered, tally, acknowledged]
    . intro w ans hI
      apply hI.quiet _ ans rfl (fun _ => rfl) (by simp [Event.acknowledges])
      intro instruction hlast
      cases not_justSteered (by simp) hlast
    . intro e w q ans hI hfresh hguarantee
      apply hI.run hfresh hguarantee
    . intro w place c s ans hI hplace hat hstep
      apply hI.save hat hstep
      intro instruction heq
      simp [heq, SavePoint.external] at hplace
  apply hinv.sound

-- In the first round `a` is delivered until it was acknowledged and then `b`. After that the session
-- goes on by itself.
def steerScript (deliver : World → SteeringInstruction → RunDirective) (a b : SteeringInstruction)
    : Script where
  directive w :=
    if w.store.any fun c => 0 < c.round then
      .continue
    else if (acknowledged w.trace).contains a.id then
      deliver w b
    else
      deliver w a
  planner _ _ := .finish "done"
  tool _ _ := .ok ""
  verdict := ⟨.healthy, .continue, ""⟩

-- The engine is killed before it acknowledges `a`, then again after it did, and then once more
-- before it acknowledges `b`.
def steerCommands : List (Command × Nat × Nat) :=
  [(.run plainEngine "g" none ⟨false, true⟩, 9, 2), (.run plainEngine "g" none ⟨false, true⟩, 9, 2),
    (.run plainEngine "g" none ⟨false, true⟩, 9, 2), (.run plainEngine "g" none ⟨false, true⟩, 9, 99)]

def deliverFresh (w : World) (instruction : SteeringInstruction) : RunDirective :=
  if w.store.any fun c => instruction.id ∉ c.appliedSteeringIds ∧
      ⟨c.round, .human, instruction.content⟩ ∈ c.transcript then
    .continue
  else
    .steer instruction

theorem freshContent_deliverFresh (w : World) (round : Nat) (instruction : SteeringInstruction)
    : FreshContent w (.directive round) (.ok (deliverFresh w instruction)) := by
  unfold deliverFresh
  split
  . trivial
  . next hnone =>
    intro c hc
    simpa [hc] using hnone

theorem freshContent_steerScript (a b : SteeringInstruction) (w : World) (q : Query)
    : FreshContent w q ((steerScript deliverFresh a b).answer w q) := by
  cases q with
  | directive round =>
    simp only [Script.answer, steerScript]
    split
    . trivial
    . split
      . apply freshContent_deliverFresh
      . apply freshContent_deliverFresh
  | _ => trivial

theorem steering_sound_redelivered
    : acknowledged ((steerScript deliverFresh ⟨"a", "run the tests"⟩ ⟨"b", "and the linter"⟩).play "s"
        World.start steerCommands).trace = ["a", "b"] ∧
      SteeringSound ((steerScript deliverFresh ⟨"a", "run the tests"⟩ ⟨"b", "and the linter"⟩).play
        "s" World.start steerCommands).trace := by
  refine ⟨by decide, steering_sound "s" _ ?_⟩
  apply Script.reaches_play
  . apply freshContent_steerScript
  . apply Prog.Reaches.refl
  . simp

theorem acknowledged_instruction_lost
    : ∃ w, SessionReaches (fun _ _ _ => True) (fun _ _ => True) "s" w ∧ ¬ SteeringSound w.trace := by
  refine ⟨(steerScript (fun _ => .steer) ⟨"a", "run the tests"⟩ ⟨"b", "run the tests"⟩).play "s"
    World.start steerCommands, ?_, ?_⟩
  . apply Script.reaches_play
    . simp
    . apply Prog.Reaches.refl
    . simp
  . intro h
    have hown := h.own "b" (by decide)
    revert hown
    decide

end Agent
end MemStack
