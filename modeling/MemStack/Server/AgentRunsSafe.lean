import MemStack.Server.AgentRuns
import MemStack.Util.Lists
import MemStack.Util.Machine

/-!
This module contains that a conversation has one active run, and when a run has one terminal event.
-/

namespace MemStack
namespace Server

namespace AgentRun

variable {r r' : AgentRun} {outcome : Outcome}

def Active (r : AgentRun) : Prop :=
  r.place ≠ .register ∧ r.aborted = false ∧ r.place ≠ .ended

def Reports : RunPlace → Prop
  | .insert (.terminal _) | .insertError | .finish | .ended => True
  | _ => False

structure Same (r r' : AgentRun) : Prop where
  conversationId : r'.conversationId = r.conversationId
  generation : r'.generation = r.generation
  aborted : r'.aborted = r.aborted
  register : r'.place = .register → r.place = .register
  active : r'.Active ↔ r.Active

theorem same_of_place {place : RunPlace} {reported : Bool} (hregister : place ≠ .register) (hended : place ≠ .ended)
    (hregister' : r.place ≠ .register) (hended' : r.place ≠ .ended) : Same r { r with place, reported } where
  conversationId := rfl
  generation := rfl
  aborted := rfl
  register := fun h => absurd h hregister
  active := by simp [Active, hregister, hended, hregister', hended']

theorem same_rfl : Same r r where
  conversationId := rfl
  generation := rfl
  aborted := rfl
  register := id
  active := Iff.rfl

theorem next_ne (append : MessageAppend) : append.next ≠ .register ∧ append.next ≠ .ended := by
  cases append <;> simp [MessageAppend.next]

theorem same_proceed (r : AgentRun) (outcome : Outcome) : Same r (r.proceed outcome).1 := by
  fun_cases proceed r outcome with
  | case1 _ habort =>
    rw [Bool.and_eq_true] at habort
    apply same_of_place (by nofun) (by nofun)
    . intro hplace
      rw [hplace] at habort
      cases habort.2
    . intro hplace
      rw [hplace] at habort
      cases habort.2
  | case4 _ append hplace =>
    apply same_of_place (next_ne append).1 (next_ne append).2 <;> simp [hplace]
  | case13 => exact same_rfl
  | _ =>
    simp only [published]
    apply same_of_place <;> simp [*]

structure Events (r r' : AgentRun) (eventType : Option AgentEventType) : Prop where
  reports : r'.reported = true → Reports r'.place
  keeps : (∀ t, eventType = some t → t.isTerminal = false) → r'.reported = r.reported
  first : ∀ t, eventType = some t → t.isTerminal = true →
    r.reported = false ∧ r'.reported = true ∧ (r.aborted = false ∨ r.place = .publishError)
  aborted : r.aborted = true → r.place ≠ .publishError → r.reported = false →
    r'.reported = false ∧ r'.place ≠ .publishError

theorem events_published {eventType : AgentEventType} {place : RunPlace} (hreported : r.reported = false)
    (hgoing : r.aborted = false ∨ r.place = .publishError) (hplace : eventType.isTerminal = true → Reports place)
    : Events r (r.published eventType place).1 (r.published eventType place).2 := by
  constructor
  . intro h
    simp only [published, hreported, Bool.false_or] at h
    exact hplace h
  . intro h
    simp [published, h eventType rfl]
  . intro t ht hterminal
    cases ht
    refine ⟨hreported, ?_, hgoing⟩
    simp [published, hterminal]
  . intro haborted hne _
    cases hgoing with
    | inl hgoing =>
      rw [haborted] at hgoing
      cases hgoing
    | inr hgoing => exact absurd hgoing hne

theorem events_moved {place : RunPlace} (hplace : r.reported = true → Reports place)
    (hne : r.aborted = true → r.place ≠ .publishError → place ≠ .publishError)
    : Events r { r with place } none where
  reports := hplace
  keeps := fun _ => rfl
  first := nofun
  aborted := fun haborted hplace hreported => ⟨hreported, hne haborted hplace⟩

theorem observation_not_terminal (observation : Observation) : observation.eventType.isTerminal = false := by
  cases observation <;> decide

theorem reports_append {append : MessageAppend} (h : append.eventType.isTerminal = true)
    : Reports (.insert append) := by
  cases append with
  | userMessage => cases h
  | start => cases h
  | terminal => trivial

theorem events_proceed (hreports : r.reported = true → Reports r.place)
    (hwritten : ∀ t, r.place = .insert (.terminal t) → r.aborted = false → outcome ≠ .appended false)
    : Events r (r.proceed outcome).1 (r.proceed outcome).2 := by
  have hgoing : ∀ {place}, r.place = place → place.abortable = true → ¬ (r.aborted && r.place.abortable) = true →
      r.aborted = false := by
    rintro _ rfl habortable hnot
    simpa [habortable] using hnot
  have hreported : ∀ {place}, r.place = place → ¬ Reports place → r.reported = false := by
    rintro _ rfl hnot
    rw [Bool.eq_false_iff]
    exact fun h => hnot (hreports h)
  fun_cases proceed r outcome with
  | case1 => exact events_moved (fun _ => trivial) (by nofun)
  | case2 hnot append hplace =>
    exact events_published (hreported hplace id) (.inl (hgoing hplace rfl hnot)) reports_append
  | case3 hnot append hplace =>
    have haborted := hgoing hplace rfl hnot
    apply events_moved
    . simp [hreported hplace id]
    . simp [haborted]
  | case4 hnot append hplace =>
    apply events_moved
    . intro h
      have := hreports h
      rw [hplace] at this
      cases append <;> trivial
    . cases append <;> nofun
  | case5 hnot append hplace =>
    have haborted := hgoing hplace rfl hnot
    apply events_moved
    . intro h
      have := hreports h
      rw [hplace] at this
      cases append with
      | terminal t => exact absurd rfl (hwritten t hplace haborted)
      | _ => cases this
    . simp [haborted]
  | case6 hnot observation hplace =>
    apply events_published (hreported hplace id) (.inl (hgoing hplace rfl hnot))
    simp [observation_not_terminal]
  | case7 hnot hplace =>
    have haborted := hgoing hplace rfl hnot
    apply events_moved
    . simp [hreported hplace id]
    . simp [haborted]
  | case8 => exact events_moved (fun _ => trivial) (by nofun)
  | case9 hnot status hplace =>
    apply events_moved
    . simp [hreported hplace id]
    . nofun
  | case10 hnot hplace => exact events_published (hreported hplace id) (.inr hplace) (fun _ => trivial)
  | case11 => exact events_moved (fun _ => trivial) (by nofun)
  | case12 => exact events_moved (fun _ => trivial) (by nofun)
  | case13 => exact events_moved hreports (fun _ => id)

end AgentRun

namespace AgentRuns

open AgentRun

section Statements

def OneActive (s : AgentRuns) : Prop :=
  ∀ (i j : Nat) (r r' : AgentRun), s.tasks[i]? = some r → s.tasks[j]? = some r' → r.conversationId = r'.conversationId →
    r.Active → r'.Active → i = j

def KeepsOthers (e : Machine.Entry AgentRuns RunsRequest RunsReply) : Prop :=
  ∀ run, e.request = .finish run → ∀ conversationId active, e.before.runs.get conversationId = some active →
    active.abortHandle ≠ run → e.after.runs.get conversationId = some active

def isTerminalOf (run : Nat) (event : RunEvent) : Bool :=
  event.run = run && event.eventType.isTerminal

def OneTerminal (s : AgentRuns) : Prop :=
  ∀ run, s.stream.countP (isTerminalOf run) ≤ 1

inductive Late (s : AgentRuns) : RunsRequest → Prop where
  -- The run has its terminal event, or appends an error next, and is still registered.
  | stopped {conversationId : String} {active : ActiveAgentRun} {r : AgentRun}
      (hget : s.runs.get conversationId = some active) (htask : s.tasks[active.abortHandle]? = some r)
      (hlate : r.reported = true ∨ r.place = .publishError)
      : Late s (.stopSession conversationId)
  -- The stream has taken the terminal event, but the table does not.
  | unwritten {run : Nat} {r : AgentRun} {eventType : AgentEventType} (htask : s.tasks[run]? = some r)
      (hplace : r.place = .insert (.terminal eventType)) (haborted : r.aborted = false)
      : Late s (.proceed run (.appended false))

end Statements

section Registry

structure Registry (s : AgentRuns) : Prop where
  mapped : ∀ conversationId active, s.runs.get conversationId = some active →
    ∃ r, s.tasks[active.abortHandle]? = some r ∧ r.conversationId = conversationId ∧
      r.generation = active.generation ∧ r.Active
  active : ∀ (i : Nat) (r : AgentRun), s.tasks[i]? = some r → r.Active →
    s.runs.get r.conversationId = some ⟨r.generation, i⟩
  generations : ∀ (i j : Nat) (r r' : AgentRun), s.tasks[i]? = some r → s.tasks[j]? = some r' →
    r.generation = r'.generation → i = j
  drawn : ∀ (i : Nat) (r : AgentRun), s.tasks[i]? = some r → r.generation ≤ s.generation
  waiting : ∀ (i : Nat) (r : AgentRun), s.tasks[i]? = some r → r.place = .register → r.aborted = false

variable {s s' : AgentRuns} {i : Nat} {r r' : AgentRun}

theorem oneActive_of_registry (h : Registry s) : OneActive s := by
  intro i j r r' hi hj hconversation hactive hactive'
  have hfirst := h.active i r hi hactive
  have hsecond := h.active j r' hj hactive'
  rw [hconversation, hsecond] at hfirst
  injection hfirst with hfirst
  injection hfirst with _ heq
  exact heq.symm

theorem registry_congr (h : Registry s)
    (hruns : ∀ conversationId, s'.runs.get conversationId = s.runs.get conversationId)
    (htasks : s'.tasks = s.tasks) (hgeneration : s'.generation = s.generation) : Registry s' := by
  constructor
  . intro conversationId active hget
    rw [hruns] at hget
    rw [htasks]
    apply h.mapped conversationId active hget
  . intro i r hi hactive
    rw [htasks] at hi
    rw [hruns]
    apply h.active i r hi hactive
  . rw [htasks]
    exact h.generations
  . rw [htasks, hgeneration]
    exact h.drawn
  . rw [htasks]
    exact h.waiting

theorem registry_set (h : Registry s) (hi : s.tasks[i]? = some r) (hsame : Same r r')
    (hruns : ∀ conversationId, s'.runs.get conversationId = s.runs.get conversationId)
    (htasks : s'.tasks = s.tasks.set i r') (hgeneration : s'.generation = s.generation)
    : Registry s' := by
  have hnew := fun j => Lists.getElem?_set_of_getElem? (b := r') hi j
  rw [← htasks] at hnew
  have hold : ∀ (j : Nat) (a : AgentRun), s'.tasks[j]? = some a → ∃ b, s.tasks[j]? = some b ∧ Same b a := by
    intro j a hj
    rw [hnew] at hj
    split at hj
    . next heq =>
      cases hj
      rw [heq]
      exact ⟨r, hi, hsame⟩
    . exact ⟨a, hj, same_rfl⟩
  constructor
  . intro conversationId active hget
    rw [hruns] at hget
    rcases h.mapped conversationId active hget with ⟨a, ha, hconversation, hgeneration, hactive⟩
    rw [hnew]
    split
    . next heq =>
      rw [heq, hi] at ha
      cases ha
      exact ⟨r', rfl, hsame.conversationId.trans hconversation, hsame.generation.trans hgeneration,
        hsame.active.mpr hactive⟩
    . exact ⟨a, ha, hconversation, hgeneration, hactive⟩
  . intro j a hj hactive
    rcases hold j a hj with ⟨b, hb, hab⟩
    rw [hruns, hab.conversationId, hab.generation]
    exact h.active j b hb (hab.active.mp hactive)
  . intro j k a a' hj hk heq
    rcases hold j a hj with ⟨b, hb, hab⟩
    rcases hold k a' hk with ⟨b', hb', hab'⟩
    rw [hab.generation, hab'.generation] at heq
    exact h.generations j k b b' hb hb' heq
  . intro j a hj
    rcases hold j a hj with ⟨b, hb, hab⟩
    rw [hab.generation, hgeneration]
    exact h.drawn j b hb
  . intro j a hj hplace
    rcases hold j a hj with ⟨b, hb, hab⟩
    rw [hab.aborted]
    exact h.waiting j b hb (hab.register hplace)

theorem registry_retire (h : Registry s) (hi : s.tasks[i]? = some r)
    (hget : s.runs.get r.conversationId = some ⟨r.generation, i⟩) (hconversation : r'.conversationId = r.conversationId)
    (hgeneration' : r'.generation = r.generation) (hplace : r'.place ≠ .register) (hactive : ¬ r'.Active)
    (hruns : ∀ conversationId, s'.runs.get conversationId =
      if conversationId = r.conversationId then none else s.runs.get conversationId)
    (htasks : s'.tasks = s.tasks.set i r') (hgeneration : s'.generation = s.generation)
    : Registry s' := by
  have hnew := fun j => Lists.getElem?_set_of_getElem? (b := r') hi j
  rw [← htasks] at hnew
  have hold : ∀ (j : Nat) (a : AgentRun), s'.tasks[j]? = some a →
      ∃ b, s.tasks[j]? = some b ∧ a.generation = b.generation ∧ ((j ≠ i ∧ a = b) ∨ a = r') := by
    intro j a hj
    rw [hnew] at hj
    split at hj
    . next heq =>
      cases hj
      rw [heq]
      exact ⟨r, hi, hgeneration', .inr rfl⟩
    . next hne => exact ⟨a, hj, rfl, .inl ⟨hne, rfl⟩⟩
  constructor
  . intro conversationId other hother
    rw [hruns] at hother
    split at hother
    . cases hother
    . next hne =>
      rcases h.mapped conversationId other hother with ⟨a, ha, haconversation, hageneration, haactive⟩
      rw [hnew]
      split
      . next heq =>
        rw [heq, hi] at ha
        cases ha
        exact absurd haconversation.symm hne
      . exact ⟨a, ha, haconversation, hageneration, haactive⟩
  . intro j a hj haactive
    rcases hold j a hj with ⟨b, hb, _, ⟨hne, rfl⟩ | rfl⟩
    . have hregistered := h.active j a hb haactive
      rw [hruns, if_neg]
      . exact hregistered
      . intro heq
        rw [heq, hget] at hregistered
        injection hregistered with hregistered
        injection hregistered with _ heq'
        exact hne heq'.symm
    . exact absurd haactive hactive
  . intro j k a a' hj hk heq
    rcases hold j a hj with ⟨b, hb, hgen, _⟩
    rcases hold k a' hk with ⟨b', hb', hgen', _⟩
    rw [hgen, hgen'] at heq
    exact h.generations j k b b' hb hb' heq
  . intro j a hj
    rcases hold j a hj with ⟨b, hb, hgen, _⟩
    rw [hgen, hgeneration]
    exact h.drawn j b hb
  . intro j a hj hregister
    rcases hold j a hj with ⟨b, hb, _, ⟨_, rfl⟩ | rfl⟩
    . exact h.waiting j a hb hregister
    . exact absurd hregister hplace

theorem registry_enter (h : Registry s) (hi : s.tasks[i]? = some r) (hnone : s.runs.get r.conversationId = none)
    (hplace : r.place = .register)
    (hruns : ∀ conversationId, s'.runs.get conversationId =
      if conversationId = r.conversationId then some ⟨r.generation, i⟩ else s.runs.get conversationId)
    (htasks : s'.tasks = s.tasks.set i { r with place := .publish .userMessage })
    (hgeneration : s'.generation = s.generation)
    : Registry s' := by
  have hnew := fun j => Lists.getElem?_set_of_getElem? (b := { r with place := .publish .userMessage }) hi j
  rw [← htasks] at hnew
  have hold : ∀ (j : Nat) (a : AgentRun), s'.tasks[j]? = some a →
      ∃ b, s.tasks[j]? = some b ∧ a.generation = b.generation ∧
        (a = b ∨ (j = i ∧ a = { r with place := .publish .userMessage })) := by
    intro j a hj
    rw [hnew] at hj
    split at hj
    . next heq =>
      cases hj
      rw [heq]
      exact ⟨r, hi, rfl, .inr ⟨rfl, rfl⟩⟩
    . exact ⟨a, hj, rfl, .inl rfl⟩
  constructor
  . intro conversationId active hget
    rw [hruns] at hget
    split at hget
    . next heq =>
      cases hget
      refine ⟨_, (hnew i).trans (if_pos rfl), heq.symm, rfl, ?_, ?_, ?_⟩
      . intro hregister
        cases hregister
      . exact h.waiting i r hi hplace
      . intro hended
        cases hended
    . rcases h.mapped conversationId active hget with ⟨a, ha, hconversation, hgen, hactive⟩
      rw [hnew]
      split
      . next heq =>
        rw [heq, hi] at ha
        cases ha
        exact absurd hplace hactive.1
      . exact ⟨a, ha, hconversation, hgen, hactive⟩
  . intro j a hj hactive
    rcases hold j a hj with ⟨b, hb, _, rfl | ⟨rfl, rfl⟩⟩
    . have hregistered := h.active j a hb hactive
      rw [hruns, if_neg]
      . exact hregistered
      . intro heq
        rw [heq, hnone] at hregistered
        cases hregistered
    . rw [hruns, if_pos rfl]
  . intro j k a a' hj hk heq
    rcases hold j a hj with ⟨b, hb, hgen, _⟩
    rcases hold k a' hk with ⟨b', hb', hgen', _⟩
    rw [hgen, hgen'] at heq
    exact h.generations j k b b' hb hb' heq
  . intro j a hj
    rcases hold j a hj with ⟨b, hb, hgen, _⟩
    rw [hgen, hgeneration]
    exact h.drawn j b hb
  . intro j a hj hregister
    rcases hold j a hj with ⟨b, hb, _, rfl | ⟨rfl, rfl⟩⟩
    . exact h.waiting j a hb hregister
    . cases hregister

theorem abort_of_getElem? (hi : s.tasks[i]? = some r) : s.abort i = s.setTask i { r with aborted := true } := by
  unfold abort
  rw [hi]

theorem not_active_aborted (r : AgentRun) : ¬ Active { r with aborted := true } := by
  rintro ⟨_, haborted, _⟩
  cases haborted

theorem registry_send (h : Registry s) (conversationId : String)
    : Registry { s with
        generation := s.generation + 1
        tasks := s.tasks ++ [{ conversationId, generation := s.generation + 1 }] } := by
  have hold : ∀ (j : Nat) (a : AgentRun),
      (s.tasks ++ [{ conversationId, generation := s.generation + 1 }])[j]? = some a →
        s.tasks[j]? = some a ∨ (j = s.tasks.length ∧ a = { conversationId, generation := s.generation + 1 }) := by
    intro j a hj
    rw [List.getElem?_append] at hj
    split at hj
    . exact .inl hj
    . next hle =>
      rw [List.getElem?_singleton] at hj
      split at hj
      . next hzero =>
        cases hj
        exact .inr ⟨by omega, rfl⟩
      . cases hj
  constructor
  . intro c active hget
    rcases h.mapped c active hget with ⟨a, ha, hrest⟩
    refine ⟨a, ?_, hrest⟩
    have hlength := (List.getElem?_eq_some_iff.mp ha).1
    dsimp only
    rw [List.getElem?_append_left hlength]
    exact ha
  . intro j a hj hactive
    rcases hold j a hj with hj | ⟨_, rfl⟩
    . exact h.active j a hj hactive
    . exact absurd rfl hactive.1
  . intro j k a a' hj hk heq
    rcases hold j a hj with hj | ⟨rfl, rfl⟩
    . rcases hold k a' hk with hk | ⟨rfl, rfl⟩
      . exact h.generations j k a a' hj hk heq
      . have := h.drawn j a hj
        dsimp only at heq
        omega
    . rcases hold k a' hk with hk | ⟨rfl, rfl⟩
      . have := h.drawn k a' hk
        dsimp only at heq
        omega
      . rfl
  . intro j a hj
    dsimp only
    rcases hold j a hj with hj | ⟨_, rfl⟩
    . have := h.drawn j a hj
      omega
    . exact le_rfl
  . intro j a hj hplace
    rcases hold j a hj with hj | ⟨_, rfl⟩
    . exact h.waiting j a hj hplace
    . rfl

theorem registry_abort {active : ActiveAgentRun} {conversationId : String} (h : Registry s)
    (hget : s.runs.get conversationId = some active)
    : Registry ({ s with runs := s.runs.erase conversationId }.abort active.abortHandle) := by
  rcases h.mapped conversationId active hget with ⟨r, hr, rfl, hgeneration, hactive⟩
  have hentry : active = ⟨r.generation, active.abortHandle⟩ := by rw [hgeneration]
  rw [hentry] at hget
  have habort := @abort_of_getElem? { s with runs := s.runs.erase r.conversationId } active.abortHandle r hr
  rw [habort]
  apply @registry_retire s _ active.abortHandle r { r with aborted := true } h hr hget rfl rfl hactive.1
    (not_active_aborted r)
  . intro c
    exact Dict.get_erase _ _ _
  . rfl
  . rfl

theorem registry_register (h : Registry s) (hi : s.tasks[i]? = some r) (hplace : r.place = .register)
    : Registry (s.register i r) := by
  cases hget : s.runs.get r.conversationId with
  | none =>
    apply registry_enter h hi hget hplace
    . intro c
      unfold register
      rw [hget]
      exact Dict.get_set _ _ _ _
    . unfold register
      rw [hget]
      rfl
    . unfold register
      rw [hget]
      rfl
  | some previous =>
    have hretired := registry_abort h hget
    rcases h.mapped r.conversationId previous hget with ⟨p, hp, _, _, hactive⟩
    have hne : i ≠ previous.abortHandle := by
      rintro rfl
      rw [hi] at hp
      cases hp
      exact hactive.1 hplace
    have hlookup := Lists.getElem?_set_of_getElem? (b := { p with aborted := true }) hp i
    rw [if_neg hne, hi] at hlookup
    have hregister : s.register i r =
        ({ s with runs := s.runs.set r.conversationId ⟨r.generation, i⟩ }.setTask previous.abortHandle
          { p with aborted := true }).setTask i { r with place := .publish .userMessage } := by
      unfold register
      rw [hget]
      unfold abortPrevious
      dsimp only
      rw [@abort_of_getElem? { s with runs := s.runs.set r.conversationId ⟨r.generation, i⟩ } previous.abortHandle p hp]
    rw [@abort_of_getElem? { s with runs := s.runs.erase r.conversationId } previous.abortHandle p hp] at hretired
    rw [hregister]
    apply registry_enter hretired hlookup
    . simp [setTask]
    . exact hplace
    . intro c
      simp only [setTask, Dict.get_set, Dict.get_erase]
      split <;> rfl
    . rfl
    . rfl

theorem registry_proceed (h : Registry s) (hi : s.tasks[i]? = some r) (outcome : Outcome)
    : Registry ((s.append r.conversationId i (r.proceed outcome).2).setTask i (r.proceed outcome).1) := by
  apply registry_set h hi (same_proceed r outcome)
  . intro c
    cases (r.proceed outcome).2 <;> rfl
  . cases (r.proceed outcome).2 <;> rfl
  . cases (r.proceed outcome).2 <;> rfl

theorem registry_finish (h : Registry s) (hi : s.tasks[i]? = some r) (hplace : r.place = .finish)
    : Registry ((s.finish r.conversationId r.generation).setTask i { r with place := .ended }) := by
  have hended : ¬ Active { r with place := .ended } := fun hactive => hactive.2.2 rfl
  by_cases haborted : r.aborted = true
  . -- Whatever is registered for the conversation is another run.
    have hother : s.finish r.conversationId r.generation = s := by
      unfold finish
      split
      . rfl
      . next active hget =>
        rw [if_pos]
        intro hgeneration
        rcases h.mapped r.conversationId active hget with ⟨a, ha, _, hagen, haactive⟩
        have := h.generations _ _ a r ha hi (hagen.trans hgeneration)
        rw [this, hi] at ha
        cases ha
        exact absurd haborted (by simp [haactive.2.1])
    rw [hother]
    apply @registry_set s _ i r { r with place := .ended } h hi
    . refine ⟨rfl, rfl, rfl, by nofun, ?_⟩
      exact iff_of_false hended (fun hactive => absurd haborted (by simp [hactive.2.1]))
    . intro c
      rfl
    . rfl
    . rfl
  . have hactive : Active r := by
      refine ⟨?_, by simpa using haborted, ?_⟩
      . rw [hplace]
        nofun
      . rw [hplace]
        nofun
    have hget := h.active i r hi hactive
    have hown : s.finish r.conversationId r.generation = { s with runs := s.runs.erase r.conversationId } := by
      unfold finish
      rw [hget]
      simp
    rw [hown]
    apply @registry_retire s _ i r { r with place := .ended } h hi hget rfl rfl (by nofun) hended
    . intro c
      exact Dict.get_erase _ _ _
    . rfl
    . rfl

theorem registry_step (h : Registry s) (request : RunsRequest) : Registry (step s request).1 := by
  cases request with
  | sendMessage conversationId => exact registry_send h conversationId
  | register i =>
    unfold step
    dsimp only
    split
    . next r hi =>
      split
      . next hplace => exact registry_register h hi hplace
      . exact h
    . exact h
  | proceed i outcome =>
    unfold step
    dsimp only
    split
    . next r hi => exact registry_proceed h hi outcome
    . exact h
  | finish i =>
    unfold step
    dsimp only
    split
    . next r hi =>
      split
      . next hplace => exact registry_finish h hi hplace
      . exact h
    . exact h
  | stopSession conversationId =>
    unfold step cancel
    dsimp only
    cases hget : s.runs.get conversationId with
    | none => exact h
    | some active =>
      apply registry_congr (registry_abort h hget)
      . intro c
        rfl
      . rfl
      . rfl
  | publishCancelled stop ok =>
    unfold step
    dsimp only
    split
    . split
      . unfold publishCancelled
        split
        . exact registry_congr h (fun _ => rfl) rfl rfl
        . exact registry_congr h (fun _ => rfl) rfl rfl
      . exact h
    . exact h
  | insertCancelled stop ok =>
    unfold step
    dsimp only
    split
    . split
      . unfold insertCancelled
        split
        . exact registry_congr h (fun _ => rfl) rfl rfl
        . exact registry_congr h (fun _ => rfl) rfl rfl
      . exact h
    . exact h

end Registry

section Terminal

structure Told (s : AgentRuns) : Prop where
  reports : ∀ (i : Nat) (r : AgentRun), s.tasks[i]? = some r → r.reported = true → Reports r.place
  single : (s.stops.map Stop.run).Nodup
  stopped : ∀ k ∈ s.stops, ∃ r, s.tasks[k.run]? = some r ∧ r.aborted = true ∧ r.reported = false ∧
    r.place ≠ .publishError
  once : OneTerminal s
  accounted : ∀ i, s.stream.countP (isTerminalOf i) ≠ 0 →
    (∃ r, s.tasks[i]? = some r ∧ r.reported = true) ∨ ∃ k ∈ s.stops, k.run = i ∧ k.place ≠ .counted

variable {s s' : AgentRuns} {i n : Nat} {r r' : AgentRun} {k : Stop}

def Quiet (r r' : AgentRun) : Prop :=
  r'.reported = r.reported ∧ (r.aborted = true → r'.aborted = true) ∧
    (r.aborted = true → r.reported = false → r.place ≠ .publishError → r'.place ≠ .publishError)

theorem told_quiet (h : Told s)
    (hreports : ∀ (i : Nat) (r : AgentRun), s'.tasks[i]? = some r → r.reported = true → Reports r.place)
    (hquiet : ∀ (i : Nat) (r : AgentRun), s.tasks[i]? = some r → ∃ r', s'.tasks[i]? = some r' ∧ Quiet r r')
    (hstops : s'.stops = s.stops)
    (hcount : ∀ i, s'.stream.countP (isTerminalOf i) = s.stream.countP (isTerminalOf i))
    : Told s' := by
  constructor
  . exact hreports
  . rw [hstops]
    exact h.single
  . intro k hk
    rw [hstops] at hk
    rcases h.stopped k hk with ⟨r, hr, haborted, hreported, hplace⟩
    rcases hquiet k.run r hr with ⟨r', hr', hkeep, haborts, hplaces⟩
    exact ⟨r', hr', haborts haborted, hkeep.trans hreported, hplaces haborted hreported hplace⟩
  . intro i
    rw [hcount]
    exact h.once i
  . intro i hne
    rw [hcount] at hne
    rw [hstops]
    rcases h.accounted i hne with ⟨r, hr, hreported⟩ | hstop
    . rcases hquiet i r hr with ⟨r', hr', hkeep, _⟩
      exact .inl ⟨r', hr', hkeep.trans hreported⟩
    . exact .inr hstop

theorem told_set (h : Told s) (hi : s.tasks[i]? = some r) (hreports : r'.reported = true → Reports r'.place)
    (hquiet : Quiet r r') (htasks : s'.tasks = s.tasks.set i r') (hstops : s'.stops = s.stops)
    (hcount : ∀ i, s'.stream.countP (isTerminalOf i) = s.stream.countP (isTerminalOf i))
    : Told s' := by
  have hnew := fun j => Lists.getElem?_set_of_getElem? (b := r') hi j
  rw [← htasks] at hnew
  apply told_quiet h _ _ hstops hcount
  . intro j a hj
    rw [hnew] at hj
    split at hj
    . cases hj
      exact hreports
    . exact h.reports j a hj
  . intro j a hj
    rw [hnew]
    split
    . next heq =>
      rw [heq, hi] at hj
      cases hj
      exact ⟨r', rfl, hquiet⟩
    . exact ⟨a, hj, rfl, id, fun _ _ => id⟩

theorem quiet_abort (r : AgentRun) : Quiet r { r with aborted := true } :=
  ⟨rfl, fun _ => rfl, fun _ _ => id⟩

theorem told_abort (h : Told s) (i : Nat) : Told (s.abort i) := by
  unfold abort
  split
  . exact h
  . next r hi =>
      exact @told_set s _ i r { r with aborted := true } h hi (h.reports i r hi) (quiet_abort r) rfl rfl (fun _ => rfl)

theorem told_send (h : Told s) (conversationId : String)
    : Told (step s (.sendMessage conversationId)).1 := by
  apply @told_quiet s (step s (.sendMessage conversationId)).1 h _ _ rfl (fun _ => rfl)
  . intro i r hi
    unfold step at hi
    dsimp only at hi
    rw [List.getElem?_append] at hi
    split at hi
    . exact h.reports i r hi
    . rw [List.getElem?_singleton] at hi
      split at hi
      . cases hi
        nofun
      . cases hi
  . intro i r hi
    have hlength := (List.getElem?_eq_some_iff.mp hi).1
    unfold step
    dsimp only
    rw [List.getElem?_append_left hlength]
    exact ⟨r, hi, rfl, id, fun _ _ => id⟩

theorem countP_eq_zero (h : Told s) (hi : s.tasks[i]? = some r) (hreported : r.reported = false)
    (hgoing : r.aborted = false ∨ r.place = .publishError)
    : s.stream.countP (isTerminalOf i) = 0 := by
  by_contra hne
  rcases h.accounted i hne with ⟨a, ha, hatrue⟩ | ⟨k, hk, rfl, _⟩
  . rw [hi] at ha
    cases ha
    rw [hreported] at hatrue
    cases hatrue
  . rcases h.stopped k hk with ⟨a, ha, haborted, _, hplace⟩
    rw [hi] at ha
    cases ha
    cases hgoing with
    | inl hgoing =>
      rw [haborted] at hgoing
      cases hgoing
    | inr hgoing => exact hplace hgoing

theorem countP_append (conversationId : String) (run i : Nat) (eventType : AgentEventType)
    : (s.append conversationId run (some eventType)).stream.countP (isTerminalOf i)
        =
      s.stream.countP (isTerminalOf i) + if run = i ∧ eventType.isTerminal = true then 1 else 0 := by
  simp [append, List.countP_append, List.countP_singleton, isTerminalOf]

theorem told_proceed (h : Told s) (hi : s.tasks[i]? = some r) {outcome : Outcome}
    (hlate : ¬ Late s (.proceed i outcome))
    : Told ((s.append r.conversationId i (r.proceed outcome).2).setTask i (r.proceed outcome).1) := by
  have hevents : Events r (r.proceed outcome).1 (r.proceed outcome).2 := by
    apply events_proceed (h.reports i r hi)
    rintro t hplace haborted rfl
    exact hlate (.unwritten hi hplace haborted)
  have hnew := fun j => Lists.getElem?_set_of_getElem? (b := (r.proceed outcome).1) hi j
  have hquiet : (∀ t, (r.proceed outcome).2 = some t → t.isTerminal = false) → Quiet r (r.proceed outcome).1 := by
    intro hnone
    refine ⟨hevents.keeps hnone, ?_, ?_⟩
    . rw [(same_proceed r outcome).aborted]
      exact id
    . intro haborted hreported hplace
      exact (hevents.aborted haborted hplace hreported).2
  cases hpublished : (r.proceed outcome).2 with
  | none => exact told_set h hi hevents.reports (hquiet (by simp [hpublished])) rfl rfl (fun _ => rfl)
  | some t =>
    cases hterminal : t.isTerminal with
    | false =>
      apply @told_set s ((s.append r.conversationId i (some t)).setTask i (r.proceed outcome).1) i r _ h hi
        hevents.reports (hquiet (by simp [hpublished, hterminal])) rfl rfl
      intro j
      change (s.append r.conversationId i (some t)).stream.countP _ = _
      rw [countP_append]
      simp [hterminal]
    | true =>
      rcases hevents.first t hpublished hterminal with ⟨hreported, hreported', hgoing⟩
      have hzero := countP_eq_zero h hi hreported hgoing
      have hcount : ∀ j, ((s.append r.conversationId i (some t)).setTask i (r.proceed outcome).1).stream.countP
          (isTerminalOf j) = if i = j then 1 else s.stream.countP (isTerminalOf j) := by
        intro j
        change (s.append r.conversationId i (some t)).stream.countP _ = _
        rw [countP_append, hterminal]
        by_cases heq : i = j
        . rw [← heq, hzero]
          simp
        . simp [heq]
      constructor
      . intro j a hj
        change (s.tasks.set i (r.proceed outcome).1)[j]? = some a at hj
        rw [hnew] at hj
        split at hj
        . cases hj
          exact hevents.reports
        . exact h.reports j a hj
      . exact h.single
      . intro k hk
        rcases h.stopped k hk with ⟨a, ha, haborted, hareported, haplace⟩
        change ∃ b, (s.tasks.set i (r.proceed outcome).1)[k.run]? = some b ∧ _
        rw [hnew]
        split
        . next heq =>
          rw [heq, hi] at ha
          cases ha
          rcases hgoing with hgoing | hgoing
          . rw [haborted] at hgoing
            cases hgoing
          . exact absurd hgoing haplace
        . exact ⟨a, ha, haborted, hareported, haplace⟩
      . intro j
        rw [hcount]
        split
        . exact le_rfl
        . exact h.once j
      . intro j hne
        rw [hcount] at hne
        change (∃ b, (s.tasks.set i (r.proceed outcome).1)[j]? = some b ∧ _) ∨ _
        rw [hnew]
        split at hne
        . next heq => exact .inl ⟨_, if_pos heq.symm, hreported'⟩
        . next hij =>
          rw [if_neg (Ne.symm hij)]
          exact h.accounted j hne

theorem told_finish (h : Told s) (hi : s.tasks[i]? = some r)
    : Told ((s.finish r.conversationId r.generation).setTask i { r with place := .ended }) := by
  have hquiet : Quiet r { r with place := .ended } := ⟨rfl, id, by nofun⟩
  unfold finish
  split
  . exact @told_set s _ i r { r with place := .ended } h hi (fun _ => trivial) hquiet rfl rfl (fun _ => rfl)
  . split
    . exact @told_set s _ i r { r with place := .ended } h hi (fun _ => trivial) hquiet rfl rfl (fun _ => rfl)
    . exact @told_set s _ i r { r with place := .ended } h hi (fun _ => trivial) hquiet rfl rfl (fun _ => rfl)

theorem told_runs (h : Told s) (runs : Dict String ActiveAgentRun) : Told { s with runs } :=
  ⟨h.reports, h.single, h.stopped, h.once, h.accounted⟩

theorem told_register (h : Told s) (hregistry : Registry s) (hi : s.tasks[i]? = some r) (hplace : r.place = .register)
    : Told (s.register i r) := by
  have hwaiting := hregistry.waiting i r hi hplace
  have hreported : r.reported ≠ true := by
    intro hreported
    have := h.reports i r hi hreported
    rw [hplace] at this
    exact this
  have hquiet : Quiet r { r with place := .publish .userMessage } := ⟨rfl, id, by nofun⟩
  unfold register
  cases hget : s.runs.get r.conversationId with
  | none =>
    exact @told_set s _ i r { r with place := .publish .userMessage } h hi (fun h => absurd h hreported) hquiet rfl rfl
      (fun _ => rfl)
  | some previous =>
    rcases hregistry.mapped r.conversationId previous hget with ⟨p, hp, _, _, hactive⟩
    have hne : i ≠ previous.abortHandle := by
      rintro rfl
      rw [hi] at hp
      cases hp
      exact hactive.1 hplace
    have haborted := told_abort (told_runs h (s.runs.set r.conversationId ⟨r.generation, i⟩)) previous.abortHandle
    have habort := @abort_of_getElem? { s with runs := s.runs.set r.conversationId ⟨r.generation, i⟩ }
      previous.abortHandle p hp
    unfold abortPrevious
    dsimp only
    rw [habort] at haborted ⊢
    have hlookup := Lists.getElem?_set_of_getElem? (b := { p with aborted := true }) hp i
    rw [if_neg hne, hi] at hlookup
    exact @told_set _ _ i r { r with place := .publish .userMessage } haborted hlookup (fun h => absurd h hreported)
      hquiet rfl rfl (fun _ => rfl)

theorem told_stop (h : Told s) (hregistry : Registry s) {conversationId : String} {active : ActiveAgentRun}
    (hget : s.runs.get conversationId = some active) (hlate : ¬ Late s (.stopSession conversationId))
    : Told { ({ s with runs := s.runs.erase conversationId }.abort active.abortHandle) with
        stops := ({ s with runs := s.runs.erase conversationId }.abort active.abortHandle).stops ++
          [{ conversationId, run := active.abortHandle }] } := by
  rcases hregistry.mapped conversationId active hget with ⟨r, hr, _, _, hactive⟩
  have haborted := told_abort (told_runs h (s.runs.erase conversationId)) active.abortHandle
  have habort := @abort_of_getElem? { s with runs := s.runs.erase conversationId } active.abortHandle r hr
  have hnew := Lists.getElem?_set_of_getElem? (b := { r with aborted := true }) hr active.abortHandle
  rw [if_pos rfl] at hnew
  rw [habort] at haborted ⊢
  constructor
  . exact haborted.reports
  . rw [List.map_append, List.nodup_append]
    refine ⟨h.single, List.nodup_singleton _, ?_⟩
    intro run hrun other hother heq
    rcases List.mem_map.mp hrun with ⟨k, hk, rfl⟩
    rcases h.stopped k hk with ⟨a, ha, haaborted, _⟩
    rw [List.map_singleton, List.mem_singleton] at hother
    rw [heq, hother] at ha
    dsimp only at ha
    rw [hr] at ha
    cases ha
    rw [hactive.2.1] at haaborted
    cases haaborted
  . intro k hk
    rcases List.mem_append.mp hk with hk | hk
    . exact haborted.stopped k hk
    . rw [List.mem_singleton] at hk
      rw [hk]
      refine ⟨_, hnew, rfl, ?_, ?_⟩
      . rw [← Bool.not_eq_true]
        exact fun hreported => hlate (.stopped hget hr (.inl hreported))
      . exact fun hplace => hlate (.stopped hget hr (.inr hplace))
  . exact haborted.once
  . intro i hne
    rcases haborted.accounted i hne with htask | ⟨k, hk, hrest⟩
    . exact .inl htask
    . exact .inr ⟨k, List.mem_append_left _ hk, hrest⟩

theorem stops_set (hk : s.stops[n]? = some k) (place : Place)
    : (s.stops.set n { k with place }).map Stop.run = s.stops.map Stop.run := by
  rw [List.map_set]
  dsimp only
  apply List.ext_getElem?
  intro m
  have hn : (s.stops.map Stop.run)[n]? = some k.run := by
    rw [List.getElem?_map, hk]
    rfl
  rw [Lists.getElem?_set_of_getElem? hn]
  split
  . next heq => rw [heq, hn]
  . rfl

theorem told_setStop (h : Told s) (hk : s.stops[n]? = some k) {place : Place} (hplace : place ≠ .counted)
    : Told (s.setStop n k place) := by
  constructor
  . exact h.reports
  . unfold setStop
    rw [stops_set hk]
    exact h.single
  . intro k' hk'
    rcases List.mem_or_eq_of_mem_set hk' with hold | rfl
    . exact h.stopped k' hold
    . exact h.stopped k (List.mem_of_getElem? hk)
  . exact h.once
  . intro i hne
    rcases h.accounted i hne with htask | ⟨k', hk', hrun, hplace'⟩
    . exact .inl htask
    . right
      by_cases heq : k' = k
      . rw [heq] at hrun
        exact ⟨{ k with place }, Lists.mem_set_of_mem hk, hrun, hplace⟩
      . exact ⟨k', Lists.mem_set_of_ne hk hk' heq, hrun, hplace'⟩

theorem told_publishCancelled (h : Told s) (hk : s.stops[n]? = some k) (hplace : k.place = .counted) (ok : Bool)
    : Told (s.publishCancelled n k ok).1 := by
  unfold publishCancelled
  split
  . have hzero : s.stream.countP (isTerminalOf k.run) = 0 := by
      by_contra hne
      rcases h.accounted k.run hne with ⟨r, hr, hreported⟩ | ⟨k', hk', hrun, hplace'⟩
      . rcases h.stopped k (List.mem_of_getElem? hk) with ⟨a, ha, _, hareported, _⟩
        rw [hr] at ha
        cases ha
        rw [hareported] at hreported
        cases hreported
      . have heq : k' = k := List.inj_on_of_nodup_map h.single hk' (List.mem_of_getElem? hk) hrun
        rw [heq] at hplace'
        exact hplace' hplace
    have hcount : ∀ i, ((s.append k.conversationId k.run (some .cancelled)).setStop n k .published).stream.countP
        (isTerminalOf i) = if k.run = i then 1 else s.stream.countP (isTerminalOf i) := by
      intro i
      change (s.append k.conversationId k.run (some .cancelled)).stream.countP _ = _
      have hterminal : AgentEventType.isTerminal .cancelled = true := by decide
      rw [countP_append, hterminal]
      by_cases heq : k.run = i
      . rw [← heq, hzero]
        simp
      . simp [heq]
    have hset := @told_setStop s n k h hk .published nofun
    constructor
    . exact hset.reports
    . exact hset.single
    . exact hset.stopped
    . intro i
      rw [hcount]
      split
      . exact le_rfl
      . exact h.once i
    . intro i hne
      rw [hcount] at hne
      split at hne
      . next heq => exact .inr ⟨{ k with place := .published }, Lists.mem_set_of_mem hk, heq, by nofun⟩
      . exact hset.accounted i hne
  . exact told_setStop h hk (by nofun)

theorem told_step (h : Told s) (hregistry : Registry s) {request : RunsRequest} (hlate : ¬ Late s request)
    : Told (step s request).1 := by
  cases request with
  | sendMessage conversationId => exact told_send h conversationId
  | register i =>
    unfold step
    dsimp only
    split
    . next r hi =>
      split
      . next hplace => exact told_register h hregistry hi hplace
      . exact h
    . exact h
  | proceed i outcome =>
    unfold step
    dsimp only
    split
    . next r hi => exact told_proceed h hi hlate
    . exact h
  | finish i =>
    unfold step
    dsimp only
    split
    . next r hi =>
      split
      . exact told_finish h hi
      . exact h
    . exact h
  | stopSession conversationId =>
    unfold step cancel
    dsimp only
    cases hget : s.runs.get conversationId with
    | none => exact h
    | some active => exact told_stop h hregistry hget hlate
  | publishCancelled n ok =>
    unfold step
    dsimp only
    split
    . next k hk =>
      split
      . next hplace => exact told_publishCancelled h hk hplace ok
      . exact h
    . exact h
  | insertCancelled n ok =>
    unfold step
    dsimp only
    split
    . next k hk =>
      split
      . unfold insertCancelled
        split
        . exact told_setStop h hk (by nofun)
        . exact told_setStop h hk (by nofun)
      . exact h
    . exact h

end Terminal

section Run

variable {s : AgentRuns} {request : RunsRequest}

theorem keepsOthers_entry (h : Registry s) (request : RunsRequest) : KeepsOthers (Machine.entry step s request) := by
  rintro i rfl conversationId active hget hne
  unfold Machine.entry step at *
  dsimp only at *
  split
  . next r hi =>
    split
    . change (s.finish r.conversationId r.generation).runs.get conversationId = some active
      unfold finish
      split
      . exact hget
      . split
        . exact hget
        . next own hown hgeneration =>
          rw [Dict.get_erase, if_neg]
          . exact hget
          . rintro rfl
            rw [hown] at hget
            cases hget
            rcases h.mapped r.conversationId active hown with ⟨a, ha, _, hagen, _⟩
            apply hne
            apply h.generations _ _ a r ha hi
            rw [hagen]
            simpa using hgeneration
    . exact hget
  . exact hget

theorem registry_empty : Registry {} where
  mapped := by
    intro conversationId active hget
    rw [Dict.get_empty] at hget
    cases hget
  active := by
    intro i r hi
    cases hi
  generations := by
    intro i j r r' hi
    cases hi
  drawn := by
    intro i r hi
    cases hi
  waiting := by
    intro i r hi
    cases hi

theorem told_empty : Told {} where
  reports := by
    intro i r hi
    cases hi
  single := List.nodup_nil
  stopped := by
    intro k hk
    cases hk
  once := fun _ => Nat.zero_le _
  accounted := fun _ hne => absurd rfl hne

/--
Only the last part asks for more than what a step does in any case.
-/
theorem exclusive_run (requests : List RunsRequest)
    : (∀ e ∈ Machine.transcript step {} requests, OneActive e.after ∧ KeepsOthers e) ∧
      ((∀ e ∈ Machine.transcript step {} requests, ¬ Late e.before e.request) →
        ∀ e ∈ Machine.transcript step {} requests, OneTerminal e.after) := by
  constructor
  . apply @Machine.forall_transcript _ _ _ step (fun _ _ => True) Registry
      (fun e => OneActive e.after ∧ KeepsOthers e) _
      _ registry_empty
    . intro _ _
      trivial
    . intro s request h _
      have hafter := registry_step h request
      exact ⟨⟨oneActive_of_registry hafter, keepsOthers_entry h request⟩, hafter⟩
  . intro hlate
    apply @Machine.forall_transcript _ _ _ step (fun s request => ¬ Late s request) (fun s => Registry s ∧ Told s)
      (fun e => OneTerminal e.after) _ _ ⟨registry_empty, told_empty⟩ requests hlate
    rintro s request ⟨h, htold⟩ hnot
    have hafter := told_step htold h hnot
    exact ⟨hafter.once, registry_step h request, hafter⟩

def completes : List RunsRequest := [
  .sendMessage "c",
  .register 0,
  .proceed 0 (.appended true),
  .proceed 0 (.appended true),
  .proceed 0 (.appended true),
  .proceed 0 (.appended true),
  .proceed 0 (.returned (some .finished)),
  .proceed 0 (.appended true),
  .proceed 0 (.appended true),
  .finish 0,
  .stopSession "c"]

theorem completes_exclusive
    : (∀ e ∈ Machine.transcript step {} completes, ¬ Late e.before e.request) ∧
      ∀ e ∈ Machine.transcript step {} completes, OneActive e.after ∧ KeepsOthers e ∧ OneTerminal e.after := by
  have hnot : ∀ e ∈ Machine.transcript step {} completes, ¬ Late e.before e.request := by
    intro e he hlate
    simp only [completes, Machine.transcript, List.mem_cons, List.not_mem_nil, or_false] at he
    rcases he with rfl | rfl | rfl | rfl | rfl | rfl | rfl | rfl | rfl | rfl | rfl
    all_goals cases hlate
    next hget => cases hget
  refine ⟨hnot, ?_⟩
  intro e he
  have hexclusive := exclusive_run completes
  exact ⟨(hexclusive.1 e he).1, (hexclusive.1 e he).2, hexclusive.2 hnot e he⟩

def stopsLate : List RunsRequest :=
  completes.take 9 ++ [.stopSession "c", .publishCancelled 0 true]

theorem stopsLate_not_exclusive
    : ¬ ∀ requests, ∀ e ∈ Machine.transcript step {} requests,
        OneActive e.after ∧ KeepsOthers e ∧ OneTerminal e.after := by
  intro hclaim
  have hlast := hclaim stopsLate _ (List.mem_of_mem_getLast? rfl)
  have honce := hlast.2.2 0
  revert honce
  decide +kernel

end Run

end AgentRuns

end Server
end MemStack
