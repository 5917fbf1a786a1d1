import MemStack.Port.Prog
import MemStack.Agent.Plan

/-!
This module contains the orchestrator (`agent/orchestrator.rs`), which runs the steps of a plan until
it is complete or one of them failed, and the life of a plan: any number of runs over one store, with
any behaviour of the step runner, each killed at any point. The query `stuck` is no port call of the
source, it marks the branch that gives up because no step is ready.
-/

namespace MemStack
namespace Agent

namespace Orchestrator

open History Port Prog

inductive StepOutcome where
  | done
  | failed (reason : String)
  deriving DecidableEq, Repr

inductive Query where
  | load
  | save (plan : Plan)
  | runStep (step : PlanStep)
  | stuck
  deriving DecidableEq, Repr

abbrev Query.Answer : Query → Type
  | .load => Option Plan
  | .save _ => Unit
  | .runStep _ => StepOutcome
  | .stuck => Unit

abbrev ports : Ports where
  Query := Query
  Answer := Query.Answer

abbrev OrchestratorProg (α : Type) := Prog ports CoreError α

def ask (q : Query) : OrchestratorProg q.Answer :=
  Prog.ask (P := ports) q

def markAndSave (plan : Plan) (id : String) (status : StepStatus) : OrchestratorProg Plan :=
  match plan.mark id status with
  | .ok plan => do
    ask (.save plan)
    pure plan
  | .error e => .fail e

def dispatch (plan : Plan) (id : String) : OrchestratorProg Plan :=
  match plan.get id with
  | some step => do
    match ← ask (.runStep step) with
    | .done => markAndSave plan id .done
    | .failed _ => markAndSave plan id .failed
  | none => .fail (.plan s!"ready step vanished: {id}")

def dispatchAll : List String → Plan → OrchestratorProg Plan
  | [], plan => pure plan
  | id :: ids, plan => do
    let plan ← dispatch plan id
    if plan.hasFailure then pure plan else dispatchAll ids plan

-- The body of the loop: go on (`inl`) or leave it (`inr`).
def reconcile (plan : Plan) : OrchestratorProg (Plan ⊕ Plan) :=
  if !plan.isComplete && !plan.hasFailure then
    let ready := plan.ready
    if ready.isEmpty then do
      ask .stuck
      pure (.inr plan)
    else do
      let plan ← dispatchAll ready plan
      ask (.save plan)
      pure (.inl plan)
  else
    pure (.inr plan)

def run (fuel : Nat) (initial : Plan) : OrchestratorProg Plan := do
  match ← ask .load with
  | some existing => iterate reconcile fuel existing
  | none =>
    ask (.save initial)
    iterate reconcile fuel initial

structure Event where
  query : Query
  answer : Except CoreError query.Answer

structure World where
  store : Option Plan
  trace : List Event

namespace World

def start : World :=
  { store := none, trace := [] }

def stored (w : World) : (q : Query) → Except CoreError q.Answer → Option Plan
  | .save plan, .ok _ => some plan
  | _, _ => w.store

def record (w : World) (q : Query) (ans : Except CoreError q.Answer) : World :=
  { store := w.stored q ans, trace := w.trace ++ [⟨q, ans⟩] }

end World

def hostEnv : Env ports CoreError World where
  allows w q ans :=
    match q, ans with
    | .load, .ok existing => existing = w.store
    | .stuck, .error _ => False
    | _, _ => True
  next := World.record

structure Initial (p : Plan) : Prop where
  built : p.Built
  idle : ∀ s ∈ p.steps, s.status ≠ .running
  nonempty : p.steps ≠ []

def Life (w : World) : Prop :=
  Reaches hostEnv (fun _ p => ∃ fuel initial, Initial initial ∧ p = run fuel initial) World.start w

def Event.saved : Event → Option Plan
  | ⟨.save plan, .ok _⟩ => some plan
  | _ => none

def savedPlans (trace : List Event) : List Plan :=
  trace.filterMap Event.saved

def Dispatchable (before : List Event) : Event → Prop
  | ⟨.runStep step, _⟩ =>
    (∃ plan, (savedPlans before).getLast? = some plan ∧
      ∀ dep ∈ step.deps, ∃ t, plan.get dep = some t ∧ t.status = .done) ∧
    ∀ plan ∈ savedPlans before, plan.hasFailure = false ∧
      ∀ t, plan.get step.id = some t → t.status ≠ .done ∧ t.status ≠ .failed
  | ⟨.stuck, _⟩ => False
  | _ => True

structure AtHead (w : World) (plan : Plan) : Prop where
  store : w.store = some plan
  wellFormed : plan.WellFormed

def RunGuarantee (w : World) : (q : Query) → Except CoreError q.Answer → Prop
  | .load, _ => True
  | .save plan, _ => plan.WellFormed ∧ ∀ stored, w.store = some stored → stored.Advances plan
  | .runStep step, _ =>
    ∃ stored, w.store = some stored ∧ stored.hasFailure = false ∧ stored.Runnable step
  | .stuck, _ => False

theorem Initial.wellFormed {p : Plan} (h : Initial p) : p.WellFormed :=
  ⟨h.built.placed, h.idle, h.nonempty⟩

theorem keeps_save {α : Type} {w : World} {plan : Plan} {k : Unit → OrchestratorProg α}
    {Q : World → α → Prop} (hwf : plan.WellFormed)
    (hadv : ∀ stored, w.store = some stored → stored.Advances plan)
    (hk : ∀ w', AtHead w' plan → Keeps hostEnv RunGuarantee Q w' (k ()))
    : Keeps hostEnv RunGuarantee Q w ((ask (.save plan)).bind k) := by
  apply keeps_ask_bind
  . intro ans _
    exact ⟨hwf, hadv⟩
  . intro _ _
    apply hk
    exact ⟨rfl, hwf⟩

theorem keeps_markAndSave {w : World} {plan : Plan} {step : PlanStep} (hhead : AtHead w plan)
    (hstep : plan.Runnable step) {status : StepStatus} (hrunning : status ≠ .running)
    : Keeps hostEnv RunGuarantee (fun w' plan' => AtHead w' plan' ∧ plan.Marked step status plan') w
        (markAndSave plan step.id status) := by
  rcases Plan.mark_spec status hstep.get with ⟨plan', hmark, hmarked⟩
  have hwf := hmarked.wellFormed hhead.wellFormed hrunning
  simp only [markAndSave, hmark]
  apply keeps_save hwf
  . intro stored hstored
    rw [hhead.store] at hstored
    cases hstored
    apply hmarked.advances hhead.wellFormed hstep
  . intro w' hhead'
    exact ⟨hhead', hmarked⟩

theorem keeps_dispatch {w : World} {plan : Plan} {step : PlanStep} (hhead : AtHead w plan)
    (hfailure : plan.hasFailure = false) (hstep : plan.Runnable step)
    : Keeps hostEnv RunGuarantee
        (fun w' plan' => AtHead w' plan' ∧ plan'.pendingSteps < plan.pendingSteps ∧
          ∀ other, other.id ≠ step.id → plan.Runnable other → plan'.Runnable other) w
        (dispatch plan step.id) := by
  have hmark (status : StepStatus) (hrunning : status ≠ .running) (hpending : status ≠ .pending)
      (w' : World) (hhead' : AtHead w' plan)
      : Keeps hostEnv RunGuarantee
          (fun w' plan' => AtHead w' plan' ∧ plan'.pendingSteps < plan.pendingSteps ∧
            ∀ other, other.id ≠ step.id → plan.Runnable other → plan'.Runnable other) w'
          (markAndSave plan step.id status) := by
    apply (keeps_markAndSave hhead' hstep hrunning).mono
    intro w'' plan' ⟨hhead'', hmarked⟩
    have hcount := hmarked.pending hstep.pending hpending
    refine ⟨hhead'', by omega, ?_⟩
    intro other hne hother
    apply hmarked.runnable hstep hother hne
  simp only [dispatch, hstep.get]
  apply keeps_ask_bind
  . intro ans _
    exact ⟨plan, hhead.store, hfailure, hstep⟩
  . intro outcome _
    have hhead' : AtHead (w.record (.runStep step) (.ok outcome)) plan :=
      ⟨hhead.store, hhead.wellFormed⟩
    cases outcome with
    | done => apply hmark .done (by decide) (by decide) _ hhead'
    | failed reason => apply hmark .failed (by decide) (by decide) _ hhead'

theorem keeps_dispatchAll {w : World} {plan : Plan} {ids : List String} (hhead : AtHead w plan)
    (hfailure : plan.hasFailure = false) (hnodup : ids.Nodup)
    (hids : ∀ id ∈ ids, ∃ step, step.id = id ∧ plan.Runnable step)
    : Keeps hostEnv RunGuarantee
        (fun w' plan' => AtHead w' plan' ∧
          plan'.pendingSteps + min 1 ids.length ≤ plan.pendingSteps) w
        (dispatchAll ids plan) := by
  induction ids generalizing w plan with
  | nil => exact ⟨hhead, by simp⟩
  | cons id ids ih =>
    rw [List.nodup_cons] at hnodup
    rcases hids id (by simp) with ⟨step, rfl, hstep⟩
    rw [dispatchAll, bind_eq, keeps_bind]
    apply (keeps_dispatch hhead hfailure hstep).mono
    intro w' plan' ⟨hhead', hcount, hkept⟩
    simp only [List.length_cons]
    split
    . exact ⟨hhead', by omega⟩
    . next hfailure' =>
      have hrest : ∀ id ∈ ids, ∃ step, step.id = id ∧ plan'.Runnable step := by
        intro id hid
        rcases hids id (by simp [hid]) with ⟨other, rfl, hother⟩
        refine ⟨other, rfl, hkept other ?_ hother⟩
        intro heq
        rw [heq] at hid
        apply hnodup.1 hid
      apply (ih hhead' (by simpa using hfailure') hnodup.2 hrest).mono
      intro w'' plan'' ⟨hhead'', hcount'⟩
      exact ⟨hhead'', by omega⟩

def Finished (w : World) (plan : Plan) : Prop :=
  (plan.isComplete = true ∨ plan.hasFailure = true) ∧ w.store = some plan

theorem keeps_reconcile {w : World} {plan : Plan} (hhead : AtHead w plan)
    : Keeps hostEnv RunGuarantee
        (fun w' r => r.elim
          (fun plan' => AtHead w' plan' ∧ plan'.pendingSteps < plan.pendingSteps) (Finished w')) w
        (reconcile plan) := by
  unfold reconcile
  split
  . next hopen =>
    simp only [Bool.and_eq_true, Bool.not_eq_true'] at hopen
    have hready := hhead.wellFormed.ready_ne_nil hopen.1 hopen.2
    rw [if_neg (by simpa using hready), bind_eq, keeps_bind]
    have hall := keeps_dispatchAll hhead hopen.2 hhead.wellFormed.ready_nodup
      (fun id hid => hhead.wellFormed.runnable_of_mem_ready hid)
    apply hall.mono
    intro w' plan' ⟨hhead', hcount⟩
    apply keeps_save hhead'.wellFormed
    . intro stored hstored
      rw [hhead'.store] at hstored
      cases hstored
      apply Plan.Advances.refl
    . intro w'' hhead''
      have : 0 < plan.ready.length := by
        rw [List.length_pos_iff]
        exact hready
      exact ⟨hhead'', by omega⟩
  . next hclosed =>
    refine ⟨?_, hhead.store⟩
    simp only [Bool.and_eq_true, Bool.not_eq_true', not_and_or, Bool.not_eq_false] at hclosed
    exact hclosed

section Returns

variable {w : World}

theorem returns_ask_bind {α : Type} {q : Query} {k : q.Answer → OrchestratorProg α}
    {Q : World → α → Prop}
    (hk : ∀ a, hostEnv.allows w q (.ok a) → Returns hostEnv Q (w.record q (.ok a)) (k a))
    : Returns hostEnv Q w ((ask q).bind k) := by
  rw [returns_bind]
  apply returns_ask
  exact hk

theorem returns_markAndSave (plan : Plan) (id : String) (status : StepStatus)
    : Returns hostEnv (fun _ _ => True) w (markAndSave plan id status) := by
  unfold markAndSave
  split
  . apply returns_ask_bind
    intros
    trivial
  . trivial

theorem returns_dispatch (plan : Plan) (id : String)
    : Returns hostEnv (fun _ _ => True) w (dispatch plan id) := by
  unfold dispatch
  split
  . apply returns_ask_bind
    intro outcome _
    cases outcome with
    | done => apply returns_markAndSave
    | failed reason => apply returns_markAndSave
  . trivial

theorem returns_dispatchAll (ids : List String) (plan : Plan)
    : Returns hostEnv (fun _ _ => True) w (dispatchAll ids plan) := by
  induction ids generalizing w plan with
  | nil => trivial
  | cons id ids ih =>
    rw [dispatchAll, bind_eq, returns_bind]
    apply (returns_dispatch plan id).mono
    intro w' plan' _
    split
    . trivial
    . apply ih

theorem returns_reconcile (plan : Plan)
    : Returns hostEnv (fun _ _ => True) w (reconcile plan) := by
  unfold reconcile
  split
  . dsimp only
    split
    . apply returns_ask_bind
      intros
      trivial
    . rw [bind_eq, returns_bind]
      apply (returns_dispatchAll plan.ready plan).mono
      intro w' plan' _
      apply returns_ask_bind
      intros
      trivial
  . trivial

theorem returns_loop {plan : Plan} (hhead : AtHead w plan) {fuel : Nat}
    (hfuel : plan.steps.length < fuel)
    : Returns hostEnv Finished w (iterate reconcile fuel plan) := by
  have hpending := plan.pendingSteps_le_length
  apply returns_iterate (J := AtHead) Plan.pendingSteps
  . intro w plan hhead
    apply (keeps_reconcile hhead).returns (returns_reconcile plan)
  . omega
  . exact hhead

end Returns

theorem keeps_loop {w : World} {plan : Plan} (hhead : AtHead w plan) (fuel : Nat)
    : Keeps hostEnv RunGuarantee Finished w (iterate reconcile fuel plan) := by
  apply keeps_iterate (J := AtHead) _ fuel hhead
  intro w plan hhead
  apply (keeps_reconcile hhead).mono
  intro w' r hr
  cases r with
  | inl plan' => apply hr.1
  | inr plan' => apply hr

theorem keeps_run {w : World} (hstore : ∀ plan, w.store = some plan → plan.WellFormed)
    {initial : Plan} (hinitial : Initial initial) (fuel : Nat)
    : Keeps hostEnv RunGuarantee Finished w (run fuel initial) := by
  apply keeps_ask_bind
  . intros
    trivial
  . intro existing hexisting
    cases existing with
    | some plan =>
      apply keeps_loop
      exact ⟨hexisting.symm, hstore plan hexisting.symm⟩
    | none =>
      apply keeps_save hinitial.wellFormed
      . intro stored hstored
        have hsome : w.store = some stored := hstored
        rw [← show none = w.store from hexisting] at hsome
        cases hsome
      . intro w' hhead
        apply keeps_loop hhead

theorem returns_run {w : World} (hstore : ∀ plan, w.store = some plan → plan.WellFormed)
    {initial : Plan} (hinitial : Initial initial) {fuel : Nat}
    (hfuel : (w.store.getD initial).steps.length < fuel)
    : Returns hostEnv Finished w (run fuel initial) := by
  apply returns_ask_bind
  intro existing hexisting
  rw [← show existing = w.store from hexisting] at hfuel
  cases existing with
  | some plan =>
    apply returns_loop _ hfuel
    exact ⟨hexisting.symm, hstore plan hexisting.symm⟩
  | none =>
    apply returns_ask_bind
    intro _ _
    apply returns_loop _ hfuel
    exact ⟨rfl, hinitial.wellFormed⟩

structure LifeInv (w : World) : Prop where
  wellFormed : ∀ plan, w.store = some plan → plan.WellFormed
  last : (savedPlans w.trace).getLast? = w.store
  advances : ∀ plan ∈ savedPlans w.trace, ∀ stored, w.store = some stored → plan.Advances stored
  dispatchable : AtEach Dispatchable w.trace

theorem LifeInv.quiet {w : World} (h : LifeInv w) (q : Query) (ans : Except CoreError q.Answer)
    (hstored : w.stored q ans = w.store) (hsaved : Event.saved ⟨q, ans⟩ = none)
    (hdispatchable : Dispatchable w.trace ⟨q, ans⟩)
    : LifeInv (w.record q ans) := by
  have hplans : savedPlans (w.record q ans).trace = savedPlans w.trace := by
    simp [savedPlans, World.record, hsaved]
  constructor
  . rw [World.record, hstored]
    apply h.wellFormed
  . rw [hplans, World.record, hstored]
    apply h.last
  . rw [hplans, World.record, hstored]
    apply h.advances
  . rw [World.record, atEach_concat]
    exact ⟨h.dispatchable, hdispatchable⟩

theorem LifeInv.save {w : World} (h : LifeInv w) {plan : Plan} (hwf : plan.WellFormed)
    (hadv : ∀ stored, w.store = some stored → stored.Advances plan)
    (ans : Except CoreError Unit)
    : LifeInv (w.record (.save plan) ans) := by
  cases ans with
  | error e =>
    apply h.quiet
    . rfl
    . rfl
    . trivial
  | ok _ =>
    have hplans : savedPlans (w.record (.save plan) (.ok ())).trace = savedPlans w.trace ++ [plan] := by
      simp [savedPlans, World.record, Event.saved]
    constructor
    . intro plan' hplan'
      cases hplan'
      exact hwf
    . rw [hplans]
      simp [World.record, World.stored]
    . intro plan' hplan' stored hstored
      cases hstored
      rw [hplans, List.mem_append, List.mem_singleton] at hplan'
      cases hplan' with
      | inl hplan' =>
        -- there is a stored plan, for this one was saved
        cases hstore : w.store with
        | none =>
          have hlast := h.last
          rw [hstore, List.getLast?_eq_none_iff] at hlast
          simp [hlast] at hplan'
        | some stored => apply (h.advances plan' hplan' stored hstore).trans (hadv stored hstore)
      | inr hplan' =>
        rw [hplan']
        apply Plan.Advances.refl
    . rw [World.record, atEach_concat]
      exact ⟨h.dispatchable, trivial⟩

theorem LifeInv.runStep {w : World} (h : LifeInv w) {stored : Plan} {step : PlanStep}
    (hstore : w.store = some stored) (hfailure : stored.hasFailure = false)
    (hstep : stored.Runnable step) (ans : Except CoreError StepOutcome)
    : LifeInv (w.record (.runStep step) ans) := by
  apply h.quiet (.runStep step) ans
  . rfl
  . rfl
  . constructor
    . refine ⟨stored, ?_, hstep.deps⟩
      rw [h.last, hstore]
    . intro plan hplan
      have hadv := h.advances plan hplan stored hstore
      refine ⟨hadv.hasFailure hfailure, ?_⟩
      intro t ht
      apply hstep.not_final (h.wellFormed stored hstore) hadv ht

theorem Life.inv {w : World} (h : Life w) : LifeInv w := by
  refine Reaches.inv ?_ ?_ h
  . rintro w p w' r hI ⟨fuel, initial, hinitial, rfl⟩ hexec
    refine ((keeps_run hI.wellFormed hinitial fuel).sound ?_ hI hexec).1
    intro w q ans hI _ hguarantee
    cases q with
    | load =>
      apply hI.quiet .load ans
      . rfl
      . rfl
      . trivial
    | save plan => apply hI.save hguarantee.1 hguarantee.2
    | runStep step =>
      rcases hguarantee with ⟨stored, hstore, hfailure, hstep⟩
      apply hI.runStep hstore hfailure hstep
    | stuck => cases hguarantee
  . constructor <;> simp [World.start, savedPlans]

theorem orchestrator_sound (w : World) (h : Life w)
    : AtEach Dispatchable w.trace ∧
      ∀ initial fuel, Initial initial → (w.store.getD initial).steps.length < fuel →
        Returns hostEnv Finished w (run fuel initial) := by
  constructor
  . apply h.inv.dispatchable
  . intro initial fuel hinitial hfuel
    apply returns_run h.inv.wellFormed hinitial hfuel

def answerWith (runner : World → PlanStep → Except CoreError StepOutcome) (w : World)
    : (q : Query) → Except CoreError q.Answer
  | .load => .ok w.store
  | .save _ => .ok ()
  | .runStep step => runner w step
  | .stuck => .ok ()

theorem allows_answerWith (runner : World → PlanStep → Except CoreError StepOutcome) (w : World)
    (q : Query)
    : hostEnv.allows w q (answerWith runner w q) := by
  cases q <;> trivial

theorem Life.runUntil {w : World} (h : Life w) {initial : Plan} (hinitial : Initial initial)
    (fuel : Nat) (runner : World → PlanStep → Except CoreError StepOutcome)
    (counts : Query → Bool) (n : Nat)
    : Life (Prog.runUntil hostEnv.next (answerWith runner) counts n w (run fuel initial)).1 := by
  apply Reaches.step _ _ _ _ h ⟨fuel, initial, hinitial, rfl⟩
  apply exec_runUntil (allows_answerWith runner)

def shipping : Plan :=
  { steps := [⟨"build", "", [], .pending⟩, ⟨"ship", "", ["build"], .pending⟩] }

theorem initial_shipping : Initial shipping := by
  constructor
  . apply Plan.Built.append { steps := [⟨"build", "", [], .pending⟩] } _
      ⟨"ship", "", ["build"], .pending⟩
    . apply Plan.Built.append Plan.new _ ⟨"build", "", [], .pending⟩
      . apply Plan.Built.new
      . decide
    . decide
  . decide
  . decide

def Event.isDispatch (ev : Event) : Bool :=
  match ev.query with
  | .runStep _ => true
  | _ => false

def flakyRunner (w : World) (_ : PlanStep) : Except CoreError StepOutcome :=
  if w.trace.countP Event.isDispatch = 1 then .error (.plan "unreachable") else .ok .done

-- The first run is killed after the status of `build` was saved, the second one cannot run `ship`.
def interrupted : World :=
  let killed := (runUntil hostEnv.next (answerWith flakyRunner)
    (fun q => q matches .save _) 1 World.start (run 9 shipping)).1
  (runUntil hostEnv.next (answerWith flakyRunner) (fun _ => false) 0 killed (run 9 shipping)).1

theorem life_interrupted : Life interrupted := by
  apply Life.runUntil _ initial_shipping
  apply Life.runUntil _ initial_shipping
  apply Reaches.refl

theorem orchestrator_sound_interrupted
    : interrupted.trace.countP Event.isDispatch = 2 ∧ AtEach Dispatchable interrupted.trace ∧
      Returns hostEnv Finished interrupted (run 9 shipping) := by
  have h := orchestrator_sound interrupted life_interrupted
  exact ⟨by decide, h.1, h.2 shipping 9 initial_shipping (by decide)⟩

end Orchestrator

end Agent
end MemStack
