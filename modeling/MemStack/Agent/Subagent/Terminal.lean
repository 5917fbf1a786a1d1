import MemStack.Agent.Subagent.Background

/-!
This module contains just when an execution has one terminal status and one terminal event.
-/

namespace MemStack
namespace Agent
namespace Subagent
namespace Execution

variable {config : Config} {e e' : Execution} {request : Request} {status : SubAgentStatus}

section Property

def announced (e : Execution) : List TerminalEvent :=
  e.events ++ e.pendingEvents

structure Sound (e : Execution) : Prop where
  trail : ∃ status, status.isTerminal = true ∧ e.trail <+: [.pending, .running, status]
  single : e.announced.length ≤ 1
  ended : e.place = .done → e.announced.length = 1 ∧ e.status.isTerminal = true

-- The step is a call of `cancel` or of a sweep that cancels the task and marks its end.
def Kills (config : Config) (e : Execution) : Request → Prop
  | .cancel => e.registered = true ∧ e.place ≠ .done
  | .checkTask call timedOut =>
    e.sweeps[call]? = some .snapshot ∧ e.place ≠ .done ∧ config.redis = false ∧ e.started = true ∧
      timedOut = true
  | .readCancelKey call answer timedOut =>
    e.sweeps[call]? = some .reading ∧ (answer = .signal ∨ (e.started = true ∧ timedOut = true))
  | .deleteCancelKey call ok timedOut =>
    e.sweeps[call]? = some .deleting ∧ ok = false ∧ e.started = true ∧ timedOut = true
  | _ => False

/-
The step breaks the rule: the execution is killed before it started or after its end was announced; or the
coroutine goes on after its task was cancelled, but it never started, or nobody announced the end and it is not
yet in its `try`, or the end was announced and it is; or it cannot be traced.
-/
inductive Breaks (config : Config) (e : Execution) : Request → Prop where
  | killedEarly (request : Request) (hkills : Kills config e request) (hplace : e.place = .scheduled)
      : Breaks config e request
  | killedAgain (request : Request) (hkills : Kills config e request) (hannounced : e.announced ≠ [])
      : Breaks config e request
  | neverRun (outcome : Outcome) (hcancel : e.cancelRequested = true) (hplace : e.place = .scheduled)
      : Breaks config e (.resume outcome)
  | unrecorded (outcome : Outcome) (hcancel : e.cancelRequested = true) (hplace : e.place = .launching)
      (hannounced : e.announced = [])
      : Breaks config e (.resume outcome)
  | untraceable (outcome : Outcome) (hcancel : e.cancelRequested = false) (hplace : e.place = .launching)
      (htrace : config.spanService = true ∧ config.traceable = false)
      : Breaks config e (.resume outcome)
  | announcedTwice (outcome : Outcome) (hcancel : e.cancelRequested = true)
      (hplace : e.place = .executing ∨ e.place = .completing ∨ e.place = .failing)
      (hannounced : e.announced ≠ [])
      : Breaks config e (.resume outcome)

inductive Stage (e : Execution) : Prop where
  | fresh (hplace : e.place = .scheduled) (hstatus : e.status = .pending) (hstarted : e.started = false)
      (htrail : e.trail = [.pending]) (hannounced : e.announced = [])
      : Stage e
  | going (hplace : e.place = .launching ∨ e.place = .executing) (hstatus : e.status = .running)
      (htrail : e.trail = [.pending, .running]) (hannounced : e.announced = [])
      : Stage e
  | killed (hplace : e.place = .launching ∨ e.place = .executing) (hcancel : e.cancelRequested = true)
      (hstatus : e.status.isTerminal = true) (htrail : e.trail = [.pending, .running, e.status])
      (hannounced : e.announced.length = 1)
      : Stage e
  | ended (hplace : e.place ≠ .scheduled ∧ e.place ≠ .launching ∧ e.place ≠ .executing)
      (hstatus : e.status.isTerminal = true) (htrail : e.trail = [.pending, .running, e.status])
      (hannounced : e.announced.length = 1)
      : Stage e

theorem Stage.sound (h : Stage e) : Sound e := by
  cases h with
  | fresh hplace hstatus hstarted htrail hannounced =>
    refine ⟨⟨.failed, rfl, ?_⟩, ?_, ?_⟩
    . rw [htrail]
      exact ⟨_, rfl⟩
    . simp [hannounced]
    . rw [hplace]
      nofun
  | going hplace hstatus htrail hannounced =>
    refine ⟨⟨.failed, rfl, ?_⟩, ?_, ?_⟩
    . rw [htrail]
      exact ⟨_, rfl⟩
    . simp [hannounced]
    . intro hdone
      simp [hdone] at hplace
  | killed hplace hcancel hstatus htrail hannounced =>
    refine ⟨⟨e.status, hstatus, ?_⟩, Nat.le_of_eq hannounced, fun _ => ⟨hannounced, hstatus⟩⟩
    rw [htrail]
  | ended hplace hstatus htrail hannounced =>
    refine ⟨⟨e.status, hstatus, ?_⟩, Nat.le_of_eq hannounced, fun _ => ⟨hannounced, hstatus⟩⟩
    rw [htrail]

end Property

section Outside

structure Same (e e' : Execution) : Prop where
  place : e'.place = e.place
  status : e'.status = e.status
  started : e'.started = e.started
  trail : e'.trail = e.trail
  announced : e'.announced = e.announced
  cancelRequested : e.cancelRequested = true → e'.cancelRequested = true

structure Killed (e e' : Execution) : Prop where
  place : e'.place = e.place
  status : e'.status = .failed ∨ e'.status = .cancelled
  trail : e'.trail = (e.setStatus e'.status).trail
  announced : e'.announced.length = e.announced.length + 1
  cancelRequested : e.place ≠ .done → e'.cancelRequested = true

theorem Stage.same (h : Stage e) (hsame : Same e e') : Stage e' := by
  cases h with
  | fresh hplace hstatus hstarted htrail hannounced =>
    exact .fresh (hsame.place.trans hplace) (hsame.status.trans hstatus) (hsame.started.trans hstarted)
      (hsame.trail.trans htrail) (hsame.announced.trans hannounced)
  | going hplace hstatus htrail hannounced =>
    exact .going (hsame.place ▸ hplace) (hsame.status.trans hstatus) (hsame.trail.trans htrail)
      (hsame.announced.trans hannounced)
  | killed hplace hcancel hstatus htrail hannounced =>
    refine .killed (hsame.place ▸ hplace) (hsame.cancelRequested hcancel) ?_ ?_ ?_
    . rw [hsame.status, hstatus]
    . rw [hsame.trail, hsame.status, htrail]
    . rw [hsame.announced, hannounced]
  | ended hplace hstatus htrail hannounced =>
    refine .ended (hsame.place ▸ hplace) ?_ ?_ ?_
    . rw [hsame.status, hstatus]
    . rw [hsame.trail, hsame.status, htrail]
    . rw [hsame.announced, hannounced]

theorem Same.refl : Same e e := by
  exact ⟨rfl, rfl, rfl, rfl, rfl, fun h => h⟩

theorem same_setSweep {call : Nat} {sweep : Sweep} : Same e (e.setSweep call sweep) := by
  exact ⟨rfl, rfl, rfl, rfl, rfl, fun h => h⟩

theorem same_cancelTask : Same e e.cancelTask := by
  unfold cancelTask
  split
  . exact ⟨rfl, rfl, rfl, rfl, rfl, fun h => h⟩
  . exact ⟨rfl, rfl, rfl, rfl, rfl, fun _ => rfl⟩

theorem Same.trans {e'' : Execution} (h : Same e e') (h' : Same e' e'') : Same e e'' :=
  ⟨h'.place.trans h.place, h'.status.trans h.status, h'.started.trans h.started, h'.trail.trans h.trail,
    h'.announced.trans h.announced, fun hcancel => h'.cancelRequested (h.cancelRequested hcancel)⟩

theorem Killed.after {e'' : Execution} (h : Killed e' e'') (hsame : Same e e') : Killed e e'' := by
  refine ⟨h.place.trans hsame.place, h.status, ?_, ?_, ?_⟩
  . rw [h.trail]
    unfold setStatus
    dsimp only
    rw [hsame.status, hsame.trail]
  . rw [h.announced, hsame.announced]
  . rw [← hsame.place]
    exact h.cancelRequested

theorem Killed.then {e'' : Execution} (h : Killed e e') (hsame : Same e' e'') : Killed e e'' := by
  refine ⟨hsame.place.trans h.place, ?_, ?_, ?_, ?_⟩
  . rw [hsame.status]
    exact h.status
  . rw [hsame.trail, hsame.status]
    exact h.trail
  . rw [hsame.announced]
    exact h.announced
  . intro hplace
    exact hsame.cancelRequested (h.cancelRequested hplace)

theorem cancelTask_requested (h : e.place ≠ .done) : e.cancelTask.cancelRequested = true := by
  unfold cancelTask
  rw [if_neg h]

theorem killed_of_mark {e'' : Execution} (hsame : Same e e') (hcancel : e.place ≠ .done → e'.cancelRequested = true)
    (hstatus : status = .failed ∨ status = .cancelled)
    (hmark : e''.place = e'.place ∧ e''.status = status ∧ e''.trail = (e'.setStatus status).trail ∧
      e''.cancelRequested = e'.cancelRequested)
    (hannounced : e''.announced.length = e'.announced.length + 1)
    : Killed e e'' := by
  rcases hmark with ⟨hplace, rfl, htrail, hrequested⟩
  refine Killed.after ⟨hplace, hstatus, htrail, hannounced, ?_⟩ hsame
  rw [hrequested, hsame.place]
  exact hcancel

theorem killed_kill : Killed e (e.kill config) := by
  apply killed_of_mark same_cancelTask cancelTask_requested (.inl rfl)
  . unfold kill
    dsimp only
    split <;> exact ⟨rfl, rfl, rfl, rfl⟩
  . unfold kill
    dsimp only
    split <;> simp [announced, setStatus, emit] <;> omega

theorem killed_cancel (h : Kills config e .cancel) : Killed e e.cancel.1 := by
  have hstep : e.cancel.1 = (e.cancelTask.setStatus .cancelled).emit .subagentKilled := by
    unfold cancel
    rw [if_pos (by simpa [Kills] using h)]
  rw [hstep]
  apply killed_of_mark same_cancelTask cancelTask_requested (.inr rfl)
  . exact ⟨rfl, rfl, rfl, rfl⟩
  . simp [announced, setStatus, emit]
    omega

theorem checkTimeout_cases {call : Nat} {timedOut remove : Bool}
    : ((e.started = true ∧ timedOut = true) ∧ Killed e (e.checkTimeout config call timedOut remove)) ∨
        (¬ (e.started = true ∧ timedOut = true) ∧ Same e (e.checkTimeout config call timedOut remove)) := by
  unfold checkTimeout
  rw [← Bool.and_eq_true]
  split
  . next h => exact .inl ⟨h, killed_kill.then same_setSweep⟩
  . next h => exact .inr ⟨h, same_setSweep⟩

theorem step_cases (hresume : ∀ outcome, request ≠ .resume outcome)
    : (Kills config e request ∧ Killed e (step config e request).1) ∨
        (¬ Kills config e request ∧ Same e (step config e request).1) := by
  cases request with
  | resume outcome => exact absurd rfl (hresume outcome)
  | cancel =>
    by_cases h : Kills config e .cancel
    . exact .inl ⟨h, killed_cancel h⟩
    . right
      refine ⟨h, ?_⟩
      have hstep : e.cancel.1 = e := by
        unfold cancel
        rw [if_neg (by simpa [Kills] using h)]
      show Same e e.cancel.1
      rw [hstep]
      exact .refl
  | sweepOrphans =>
    refine .inr ⟨nofun, ?_⟩
    unfold step sweepOrphans
    dsimp only
    split <;> exact ⟨rfl, rfl, rfl, rfl, rfl, fun h => h⟩
  | checkTask call timedOut =>
    unfold step checkTask Kills
    dsimp only
    split
    . next hcall =>
      rw [hcall]
      split
      . next hdone => exact .inr ⟨fun h => h.2.1 hdone, same_setSweep⟩
      . next hdone =>
        split
        . next hredis => exact .inr ⟨by simp [hredis], same_setSweep⟩
        . next hredis =>
          rw [Bool.not_eq_true] at hredis
          cases @checkTimeout_cases config e call timedOut false with
          | inl hkilled => exact .inl ⟨⟨rfl, hdone, hredis, hkilled.1⟩, hkilled.2⟩
          | inr hsame => exact .inr ⟨fun h => hsame.1 h.2.2.2, hsame.2⟩
    . next hcall => exact .inr ⟨fun h => hcall h.1, .refl⟩
  | readCancelKey call answer timedOut =>
    unfold step readCancelKey Kills
    dsimp only
    split
    . next hcall =>
      rw [hcall]
      have hchecked : ∀ e', Same e e' → answer ≠ .signal →
          ((some Sweep.reading = some .reading ∧
            (answer = .signal ∨ (e.started = true ∧ timedOut = true))) ∧
              Killed e (e'.checkTimeout config call timedOut false)) ∨
            (¬ (some Sweep.reading = some .reading ∧
              (answer = .signal ∨ (e.started = true ∧ timedOut = true))) ∧
              Same e (e'.checkTimeout config call timedOut false)) := by
        intro e' he' hanswer
        have hcases := @checkTimeout_cases config e' call timedOut false
        rw [he'.started] at hcases
        cases hcases with
        | inl hkilled => exact .inl ⟨⟨rfl, .inr hkilled.1⟩, hkilled.2.after he'⟩
        | inr hsame => exact .inr ⟨fun h => hsame.1 (h.2.resolve_left hanswer), he'.trans hsame.2⟩
      cases answer with
      | absent => exact hchecked e .refl nofun
      | error => exact hchecked e .refl nofun
      | malformed => exact hchecked e.cancelTask same_cancelTask nofun
      | signal => exact .inl ⟨⟨rfl, .inl rfl⟩, killed_kill.then same_setSweep⟩
    . next hcall => exact .inr ⟨fun h => hcall h.1, .refl⟩
  | deleteCancelKey call ok timedOut =>
    unfold step deleteCancelKey Kills
    dsimp only
    split
    . next hcall =>
      rw [hcall]
      split
      . next hok => exact .inr ⟨by simp [hok], same_setSweep⟩
      . next hok =>
        rw [Bool.not_eq_true] at hok
        cases @checkTimeout_cases config e call timedOut true with
        | inl hkilled => exact .inl ⟨⟨rfl, hok, hkilled.1⟩, hkilled.2⟩
        | inr hsame => exact .inr ⟨fun h => hsame.1 h.2.2, hsame.2⟩
    . next hcall => exact .inr ⟨fun h => hcall h.1, .refl⟩
  | endSweep call =>
    refine .inr ⟨nofun, ?_⟩
    unfold step endSweep
    dsimp only
    split
    . split
      . refine ⟨rfl, rfl, rfl, rfl, ?_, fun h => h⟩
        exact List.append_nil _
      . exact ⟨rfl, rfl, rfl, rfl, rfl, fun h => h⟩
    . exact .refl

end Outside

section Step

theorem not_sound_of_announced (h : 1 < e.announced.length) : ¬ Sound e := by
  intro hsound
  exact absurd hsound.single (Nat.not_le.mpr h)

theorem not_sound_of_skipped (hstatus : status ≠ .running) (htrail : e.trail = [.pending, status])
    : ¬ Sound e := by
  intro hsound
  rcases hsound.trail with ⟨_, _, hprefix⟩
  rw [htrail] at hprefix
  rw [List.cons_prefix_cons, List.cons_prefix_cons] at hprefix
  exact hstatus hprefix.2.1

theorem announced_ne_nil (h : e.announced.length = 1) : e.announced ≠ [] := by
  intro hnil
  rw [hnil] at h
  cases h

theorem sound_killed_iff (h : Stage e) (hkills : Kills config e request) (hkilled : Killed e e')
    : (Sound e' ↔ ¬ Breaks config e request) ∧ (¬ Breaks config e request → Stage e') := by
  have hterminal : e'.status.isTerminal = true := by
    cases hkilled.status with
    | inl hfailed => rw [hfailed]; rfl
    | inr hcancelled => rw [hcancelled]; rfl
  have hagain : e.announced.length = 1 → (Sound e' ↔ ¬ Breaks config e request) ∧
      (¬ Breaks config e request → Stage e') := by
    intro hannounced
    have hbreaks : Breaks config e request := .killedAgain request hkills (announced_ne_nil hannounced)
    refine ⟨iff_of_false (not_sound_of_announced ?_) (not_not_intro hbreaks), fun hnot => absurd hbreaks hnot⟩
    rw [hkilled.announced, hannounced]
    decide
  cases h with
  | fresh hplace hstatus hstarted htrail hannounced =>
    have hbreaks : Breaks config e request := .killedEarly request hkills hplace
    refine ⟨iff_of_false (@not_sound_of_skipped _ e'.status ?_ ?_) (not_not_intro hbreaks),
      fun hnot => absurd hbreaks hnot⟩
    . intro hrunning
      rw [hrunning] at hterminal
      cases hterminal
    . rw [hkilled.trail]
      unfold setStatus
      dsimp only
      rw [hstatus, htrail, if_neg]
      . rfl
      . intro hpending
        rw [← hpending] at hterminal
        cases hterminal
  | going hplace hstatus htrail hannounced =>
    have hstage : Stage e' := by
      refine .killed (hkilled.place ▸ hplace) ?_ hterminal ?_ ?_
      . apply hkilled.cancelRequested
        intro hdone
        simp [hdone] at hplace
      . rw [hkilled.trail]
        unfold setStatus
        dsimp only
        rw [hstatus, htrail, if_neg]
        . rfl
        . intro hrunning
          rw [← hrunning] at hterminal
          cases hterminal
      . rw [hkilled.announced, hannounced]
        rfl
    refine ⟨iff_of_true hstage.sound ?_, fun _ => hstage⟩
    intro hbreaks
    cases hbreaks with
    | killedEarly _ _ hscheduled => simp [hscheduled] at hplace
    | killedAgain _ _ hne => exact hne hannounced
    | _ => cases hkills
  | killed hplace hcancel hstatus htrail hannounced => exact hagain hannounced
  | ended hplace hstatus htrail hannounced => exact hagain hannounced

theorem breaks_resume_iff {outcome : Outcome}
    : Breaks config e (.resume outcome)
        ↔
      (e.cancelRequested = true ∧
        (e.place = .scheduled ∨ (e.place = .launching ∧ e.announced = []) ∨
          ((e.place = .executing ∨ e.place = .completing ∨ e.place = .failing) ∧ e.announced ≠ []))) ∨
        (e.cancelRequested = false ∧ e.place = .launching ∧ config.spanService = true ∧
          config.traceable = false) := by
  constructor
  . intro hbreaks
    cases hbreaks with
    | neverRun _ hcancel hplace => exact .inl ⟨hcancel, .inl hplace⟩
    | unrecorded _ hcancel hplace hannounced => exact .inl ⟨hcancel, .inr (.inl ⟨hplace, hannounced⟩)⟩
    | untraceable _ hcancel hplace htrace => exact .inr ⟨hcancel, hplace, htrace⟩
    | announcedTwice _ hcancel hplace hannounced =>
      exact .inl ⟨hcancel, .inr (.inr ⟨hplace, hannounced⟩)⟩
    | killedEarly _ hkills _ => cases hkills
    | killedAgain _ hkills _ => cases hkills
  . rintro (⟨hcancel, hplace | ⟨hplace, hannounced⟩ | ⟨hplace, hannounced⟩⟩ | ⟨hcancel, hplace, htrace⟩)
    . exact .neverRun outcome hcancel hplace
    . exact .unrecorded outcome hcancel hplace hannounced
    . exact .announcedTwice outcome hcancel hplace hannounced
    . exact .untraceable outcome hcancel hplace htrace

theorem not_sound_of_done (hplace : e.place = .done) (hannounced : e.announced = []) : ¬ Sound e := by
  intro hsound
  have hone := (hsound.ended hplace).1
  rw [hannounced] at hone
  cases hone

theorem resume_of_cancelled {outcome : Outcome} (hplace : e.place ≠ .done) (hcancel : e.cancelRequested = true)
    : e.resume config outcome = e.interrupted := by
  unfold resume
  rw [if_neg hplace, if_pos hcancel]

theorem interrupted_in_try (hplace : e.place = .executing ∨ e.place = .completing ∨ e.place = .failing)
    : e.interrupted
        =
      { ({ e with cancelRequested := false }.setStatus .cancelled).emit .subagentKilled with
        place := .handling } := by
  unfold interrupted
  rcases hplace with hplace | hplace | hplace <;> simp [hplace, setStatus, emit]

theorem interrupted_outside
    (hplace : e.place ≠ .executing ∧ e.place ≠ .completing ∧ e.place ≠ .failing)
    : e.interrupted = { e with cancelRequested := false, place := .done } := by
  unfold interrupted
  dsimp only
  split
  . next hexecuting => exact absurd hexecuting hplace.1
  . next hcompleting => exact absurd hcompleting hplace.2.1
  . next hfailing => exact absurd hfailing hplace.2.2
  . rfl

theorem iff_of_stage {broken : Prop} (hstage : Stage e) (hnot : ¬ broken)
    : (Sound e ↔ ¬ broken) ∧ (¬ broken → Stage e) := by
  exact ⟨iff_of_true hstage.sound hnot, fun _ => hstage⟩

theorem iff_of_not_sound {broken : Prop} (hunsound : ¬ Sound e) (hbroken : broken)
    : (Sound e ↔ ¬ broken) ∧ (¬ broken → Stage e) := by
  exact ⟨iff_of_false hunsound (not_not_intro hbroken), fun hnot => absurd hbroken hnot⟩

theorem stage_of_mark {event : TerminalEvent} {place : Place} (hterminal : status.isTerminal = true)
    (hstatus : e.status = .running) (htrail : e.trail = [.pending, .running]) (hannounced : e.announced = [])
    (hplace : place ≠ .scheduled ∧ place ≠ .launching ∧ place ≠ .executing)
    : Stage { (e.setStatus status).emit event with place := place } := by
  refine .ended hplace hterminal ?_ ?_
  . unfold setStatus emit
    dsimp only
    rw [hstatus, htrail, if_neg]
    . rfl
    . intro hrunning
      rw [← hrunning] at hterminal
      cases hterminal
  . unfold announced at hannounced
    rw [List.append_eq_nil_iff] at hannounced
    simp [announced, setStatus, emit, hannounced.1, hannounced.2]

theorem sound_fresh_iff (outcome : Outcome) (hplace : e.place = .scheduled) (hstatus : e.status = .pending)
    (htrail : e.trail = [.pending]) (hannounced : e.announced = [])
    : (Sound (e.resume config outcome) ↔ ¬ Breaks config e (.resume outcome)) ∧
        (¬ Breaks config e (.resume outcome) → Stage (e.resume config outcome)) := by
  cases hcancel : e.cancelRequested with
  | true =>
    rw [resume_of_cancelled (by simp [hplace]) hcancel, interrupted_outside (by simp [hplace])]
    exact iff_of_not_sound (not_sound_of_done rfl hannounced) (.neverRun outcome hcancel hplace)
  | false =>
    have hstep : e.resume config outcome = { e.start with place := .launching } := by
      unfold resume
      simp [hplace, hcancel]
    rw [hstep]
    apply iff_of_stage
    . refine .going (.inl rfl) rfl ?_ hannounced
      unfold start setStatus
      simp [hstatus, htrail]
    . rw [breaks_resume_iff]
      simp [hplace, hcancel]

theorem sound_launching_iff (outcome : Outcome) (hplace : e.place = .launching)
    (hstatus : e.status = .running) (htrail : e.trail = [.pending, .running]) (hannounced : e.announced = [])
    : (Sound (e.resume config outcome) ↔ ¬ Breaks config e (.resume outcome)) ∧
        (¬ Breaks config e (.resume outcome) → Stage (e.resume config outcome)) := by
  cases hcancel : e.cancelRequested with
  | true =>
    rw [resume_of_cancelled (by simp [hplace]) hcancel, interrupted_outside (by simp [hplace])]
    exact iff_of_not_sound (not_sound_of_done rfl hannounced) (.unrecorded outcome hcancel hplace hannounced)
  | false =>
    by_cases htrace : config.spanService = true ∧ config.traceable = false
    . have hstep : e.resume config outcome = { e with place := .done } := by
        unfold resume
        simp [hplace, hcancel, htrace]
      rw [hstep]
      exact iff_of_not_sound (not_sound_of_done rfl hannounced) (.untraceable outcome hcancel hplace htrace)
    . have hstep : e.resume config outcome = { e with place := .executing } := by
        unfold resume
        simp [hplace, hcancel, htrace]
      rw [hstep]
      apply iff_of_stage
      . exact .going (.inr rfl) hstatus htrail hannounced
      . rw [breaks_resume_iff]
        simp [hplace, hcancel, htrace]

theorem sound_executing_iff (outcome : Outcome) (hplace : e.place = .executing)
    (hstatus : e.status = .running) (htrail : e.trail = [.pending, .running]) (hannounced : e.announced = [])
    : (Sound (e.resume config outcome) ↔ ¬ Breaks config e (.resume outcome)) ∧
        (¬ Breaks config e (.resume outcome) → Stage (e.resume config outcome)) := by
  have hnot : ¬ Breaks config e (.resume outcome) := by
    rw [breaks_resume_iff]
    simp [hplace, hannounced]
  apply iff_of_stage _ hnot
  cases hcancel : e.cancelRequested with
  | true =>
    rw [resume_of_cancelled (by simp [hplace]) hcancel, interrupted_in_try (by simp [hplace])]
    exact @stage_of_mark { e with cancelRequested := false } _ _ _ rfl hstatus htrail hannounced (by decide)
  | false =>
    unfold resume
    rw [if_neg (by simp [hplace]), if_neg (by simp [hcancel]), hplace]
    cases outcome with
    | goesOn => exact .going (.inr hplace) hstatus htrail hannounced
    | success => exact stage_of_mark rfl hstatus htrail hannounced (by decide)
    | failure => exact stage_of_mark rfl hstatus htrail hannounced (by decide)
    | raises => exact stage_of_mark rfl hstatus htrail hannounced (by decide)

theorem not_sound_interrupted (hplace : e.place = .executing ∨ e.place = .completing ∨ e.place = .failing)
    (hannounced : e.announced.length = 1)
    : ¬ Sound e.interrupted := by
  rw [interrupted_in_try hplace]
  apply not_sound_of_announced
  unfold announced at *
  rw [List.length_append] at *
  simp [setStatus, emit]
  omega

theorem sound_killed_resume_iff (outcome : Outcome) (hplace : e.place = .launching ∨ e.place = .executing)
    (hcancel : e.cancelRequested = true) (hstatus : e.status.isTerminal = true)
    (htrail : e.trail = [.pending, .running, e.status]) (hannounced : e.announced.length = 1)
    : (Sound (e.resume config outcome) ↔ ¬ Breaks config e (.resume outcome)) ∧
        (¬ Breaks config e (.resume outcome) → Stage (e.resume config outcome)) := by
  cases hplace with
  | inl hlaunching =>
    rw [resume_of_cancelled (by simp [hlaunching]) hcancel, interrupted_outside (by simp [hlaunching])]
    apply iff_of_stage
    . exact .ended ⟨nofun, nofun, nofun⟩ hstatus htrail hannounced
    . rw [breaks_resume_iff]
      simp [hlaunching, hcancel, announced_ne_nil hannounced]
  | inr hexecuting =>
    rw [resume_of_cancelled (by simp [hexecuting]) hcancel]
    apply iff_of_not_sound
    . exact not_sound_interrupted (.inl hexecuting) hannounced
    . exact .announcedTwice outcome hcancel (.inl hexecuting) (announced_ne_nil hannounced)

theorem sound_ended_iff (outcome : Outcome)
    (hplace : e.place ≠ .scheduled ∧ e.place ≠ .launching ∧ e.place ≠ .executing)
    (hstatus : e.status.isTerminal = true) (htrail : e.trail = [.pending, .running, e.status])
    (hannounced : e.announced.length = 1)
    : (Sound (e.resume config outcome) ↔ ¬ Breaks config e (.resume outcome)) ∧
        (¬ Breaks config e (.resume outcome) → Stage (e.resume config outcome)) := by
  by_cases hdone : e.place = .done
  . have hstep : e.resume config outcome = e := by
      unfold resume
      rw [if_pos hdone]
    rw [hstep]
    apply iff_of_stage
    . exact .ended hplace hstatus htrail hannounced
    . rw [breaks_resume_iff]
      simp [hdone]
  . have hover : ∀ requested, Stage { e with cancelRequested := requested, place := .done } := by
      intro requested
      exact .ended ⟨nofun, nofun, nofun⟩ hstatus htrail hannounced
    cases hcancel : e.cancelRequested with
    | true =>
      rw [resume_of_cancelled hdone hcancel]
      by_cases htry : e.place = .completing ∨ e.place = .failing
      . apply iff_of_not_sound
        . exact not_sound_interrupted (.inr htry) hannounced
        . exact .announcedTwice outcome hcancel (.inr htry) (announced_ne_nil hannounced)
      . rw [not_or] at htry
        rw [interrupted_outside ⟨hplace.2.2, htry⟩]
        apply iff_of_stage (hover false)
        rw [breaks_resume_iff]
        simp [hplace, htry]
    | false =>
      have hstep : e.resume config outcome = { e with place := .done } := by
        unfold resume
        rw [if_neg hdone, if_neg (by simp [hcancel])]
        split
        . next hscheduled => exact absurd hscheduled hplace.1
        . next hlaunching => exact absurd hlaunching hplace.2.1
        . next hexecuting => exact absurd hexecuting hplace.2.2
        . rfl
      rw [hstep]
      apply iff_of_stage (hcancel ▸ hover e.cancelRequested)
      rw [breaks_resume_iff]
      simp [hplace, hcancel]

theorem sound_resume_iff (h : Stage e) (outcome : Outcome)
    : (Sound (e.resume config outcome) ↔ ¬ Breaks config e (.resume outcome)) ∧
        (¬ Breaks config e (.resume outcome) → Stage (e.resume config outcome)) := by
  cases h with
  | fresh hplace hstatus hstarted htrail hannounced =>
    exact sound_fresh_iff outcome hplace hstatus htrail hannounced
  | going hplace hstatus htrail hannounced =>
    cases hplace with
    | inl hlaunching => exact sound_launching_iff outcome hlaunching hstatus htrail hannounced
    | inr hexecuting => exact sound_executing_iff outcome hexecuting hstatus htrail hannounced
  | killed hplace hcancel hstatus htrail hannounced =>
    exact sound_killed_resume_iff outcome hplace hcancel hstatus htrail hannounced
  | ended hplace hstatus htrail hannounced => exact sound_ended_iff outcome hplace hstatus htrail hannounced

theorem sound_step_iff (h : Stage e)
    : (Sound (step config e request).1 ↔ ¬ Breaks config e request) ∧
        (¬ Breaks config e request → Stage (step config e request).1) := by
  by_cases hresume : ∃ outcome, request = .resume outcome
  . rcases hresume with ⟨outcome, rfl⟩
    exact sound_resume_iff h outcome
  . cases @step_cases config e request (fun outcome heq => hresume ⟨outcome, heq⟩) with
    | inl hkills => exact sound_killed_iff h hkills.1 hkills.2
    | inr hsame =>
      have hstage := h.same hsame.2
      refine ⟨iff_of_true hstage.sound ?_, fun _ => hstage⟩
      intro hbreaks
      cases hbreaks with
      | killedEarly _ hkills _ => exact hsame.1 hkills
      | killedAgain _ hkills _ => exact hsame.1 hkills
      | _ => exact hresume ⟨_, rfl⟩

end Step

section Run

/-
An execution has one terminal status and one terminal event just when nobody kills it before it started or after
its end was announced, its coroutine does not go on in its `try` after a kill, no task is cancelled without a
record while it is not yet there, and it can be traced.
-/
theorem sound_iff (config : Config) (requests : List Request)
    : (∀ entry ∈ Machine.transcript (step config) {} requests, Sound entry.after)
        ↔
      ∀ entry ∈ Machine.transcript (step config) {} requests,
        ¬ Breaks config entry.before entry.request := by
  apply @Machine.forall_transcript_iff _ _ _ (step config)
    (fun e request => ¬ Breaks config e request) Stage
  . intro e request h
    exact sound_step_iff h
  . exact .fresh rfl rfl rfl rfl rfl

/--
The user cancels an execution that runs: its end is announced by `cancel` and by the coroutine.
-/
theorem cancelled_announced_twice
    : ¬ ∀ (config : Config) (requests : List Request),
        ∀ entry ∈ Machine.transcript (step config) {} requests, Sound entry.after := by
  intro hclaim
  have hlast := hclaim
    { redis := false, orphanSweeper := false, spanService := false, conversationId := "c",
      subagentName := "s", userMessage := "m" }
    [.resume .goesOn, .resume .goesOn, .cancel, .resume .goesOn] _ (List.mem_of_mem_getLast? rfl)
  exact absurd hlast.single (by decide +kernel)

end Run

end Execution
end Subagent
end Agent
end MemStack
