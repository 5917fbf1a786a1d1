import MemStack.Agent.Pool.CircuitBreaker

/-!
This module contains what the circuit breaker of the agent pool guarantees over all runs.
-/

namespace MemStack
namespace Agent
namespace Pool
namespace CircuitBreaker

open History

abbrev Entry := Machine.Entry Guarded Request (Option Bool)

def Entry.completed (e : Entry) (failed : Bool) : Bool :=
  match e.request with
  | .finish .succeeded _ => 0 < e.before.inFlight && !failed
  | .finish .excluded _ => 0 < e.before.inFlight && !failed
  | .finish .failed _ => 0 < e.before.inFlight && failed
  | _ => false

def Entry.admitted (e : Entry) : Bool :=
  e.reply == some true

def Entry.inHalfOpen (e : Entry) : Bool :=
  e.after.breaker.state == .halfOpen

def Entry.inRow (e : Entry) : Bool :=
  e.before.breaker.state == .closed && !e.completed false

def failuresInRow (past : List Entry) : Nat :=
  countSince Entry.inRow (Entry.completed · true) past

variable (config : CircuitBreakerConfig)

def OpensAfterRow (past : List Entry) (e : Entry) : Prop :=
  (∀ now, e.request ≠ .trip now) → e.before.breaker.state = .closed → e.after.breaker.state = .open →
    config.failureThreshold ≤ failuresInRow (past ++ [e])

def LimitsTests (past : List Entry) (e : Entry) : Prop :=
  e.inHalfOpen = true → e.admitted = true →
    countSince Entry.inHalfOpen Entry.admitted (past ++ [e]) ≤ config.halfOpenRequests

structure Stuck (s : Guarded) : Prop where
  idle : s.inFlight = 0
  halfOpen : s.breaker.state = .halfOpen
  used : s.breaker.halfOpenCalls ≥ config.halfOpenRequests

structure Guards (past : List Entry) (e : Entry) : Prop where
  opens : OpensAfterRow config past e
  limits : LimitsTests config past e
  unstuck : ¬Stuck config e.after

def WindowInRow (past : List Entry) (e : Entry) : Prop :=
  ∀ now, e.request = .finish .failed now → 0 < e.before.inFlight → e.before.breaker.state = .closed →
    config.failureThreshold ≤ (e.before.breaker.withFailure config now).countRecentFailures config now →
    config.failureThreshold ≤ failuresInRow past + 1

def Frees (s : Guarded) (outcome : Outcome) : Prop :=
  s.inFlight = 1 → s.breaker.state = .halfOpen → s.breaker.halfOpenCalls ≥ config.halfOpenRequests →
    outcome ≠ .cancelled ∧ (outcome ≠ .failed → s.breaker.successCount + 1 ≥ config.successThreshold)

def Unblocked (s : Guarded) : Request → Prop
  | .finish outcome _ => Frees config s outcome
  | .call now =>
    s.inFlight = 0 → s.breaker.state = .open → s.breaker.shouldTryReset config now = true →
      0 < config.halfOpenRequests
  | _ => True

structure Regular (past : List Entry) (e : Entry) : Prop where
  row : WindowInRow config past e
  unblocked : Unblocked config e.before e.request

structure Inv (past : List Entry) (s : Guarded) : Prop where
  tests : countSince Entry.inHalfOpen Entry.admitted past
    = if s.breaker.state = .halfOpen then s.breaker.halfOpenCalls else 0
  unstuck : ¬Stuck config s

section Sections

variable {config : CircuitBreakerConfig} {breaker : CircuitBreaker} {s : Guarded} {now : Int} {outcome : Outcome}

@[simp]
theorem transitionTo_state (newState : CircuitState) : (breaker.transitionTo now newState).state = newState := by
  cases newState <;> rfl

theorem admitHalfOpen_cases (config : CircuitBreakerConfig) (breaker : CircuitBreaker)
    : (breaker.halfOpenCalls ≥ config.halfOpenRequests ∧ breaker.admitHalfOpen config = (breaker.rejected, false)) ∨
        (breaker.halfOpenCalls < config.halfOpenRequests ∧
          breaker.admitHalfOpen config =
            ({ breaker with halfOpenCalls := breaker.halfOpenCalls + 1 }.admitted, true)) := by
  unfold admitHalfOpen
  split
  . next h => exact Or.inl ⟨h, rfl⟩
  . next h => exact Or.inr ⟨by omega, rfl⟩

theorem admission_of_closed (h : breaker.state = .closed)
    : breaker.admission config now = (breaker.admitted, true) := by
  unfold admission
  rw [h]

theorem admission_of_waiting (h : breaker.state = .open) (hwait : breaker.shouldTryReset config now = false)
    : breaker.admission config now = (breaker.rejected, false) := by
  unfold admission
  rw [h, hwait]
  rfl

theorem admission_of_retrying (h : breaker.state = .open) (hretry : breaker.shouldTryReset config now = true)
    : breaker.admission config now = (breaker.transitionTo now .halfOpen).admitHalfOpen config := by
  unfold admission
  rw [h, hretry]
  rfl

theorem admission_of_halfOpen (h : breaker.state = .halfOpen)
    : breaker.admission config now = breaker.admitHalfOpen config := by
  unfold admission
  rw [h]

theorem onFailure_state_ne : (breaker.onFailure config now).state ≠ .halfOpen := by
  unfold onFailure
  dsimp only
  cases hstate : (breaker.withFailure config now).state with
  | halfOpen => simp
  | closed =>
    dsimp only
    split
    . simp
    . rw [hstate]
      decide
  | «open» =>
    dsimp only
    rw [hstate]
    decide

theorem onFailure_open_iff (h : breaker.state = .closed)
    : (breaker.onFailure config now).state = .open ↔
        config.failureThreshold ≤ (breaker.withFailure config now).countRecentFailures config now := by
  have hstate : (breaker.withFailure config now).state = .closed := h
  unfold onFailure
  dsimp only
  rw [hstate]
  dsimp only
  split
  . next hmany => simp [hmany]
  . next hfew => simp [hstate, hfew]

theorem onSuccess_of_closed (h : breaker.state = .closed) : (breaker.onSuccess config now).state = .closed := by
  unfold onSuccess
  dsimp only
  rw [h]

theorem onSuccess_halfOpen_iff
    : (breaker.onSuccess config now).state = .halfOpen ↔
        breaker.state = .halfOpen ∧ (breaker.successCount + 1 : Nat) < config.successThreshold := by
  unfold onSuccess
  dsimp only
  cases hstate : breaker.state with
  | halfOpen =>
    dsimp only
    split
    . next hmany =>
      simp
      omega
    . next hfew =>
      simp
      omega
  | closed => simp
  | «open» => simp

theorem onSuccess_halfOpenCalls (h : (breaker.onSuccess config now).state = .halfOpen)
    : (breaker.onSuccess config now).halfOpenCalls = breaker.halfOpenCalls := by
  have hbefore := onSuccess_halfOpen_iff.mp h
  unfold onSuccess
  dsimp only
  rw [hbefore.1]
  dsimp only
  rw [if_neg (by omega)]

theorem report_halfOpen (h : (s.report config outcome now).state = .halfOpen)
    : s.breaker.state = .halfOpen ∧ (s.report config outcome now).halfOpenCalls = s.breaker.halfOpenCalls := by
  cases outcome with
  | succeeded => exact ⟨(onSuccess_halfOpen_iff.mp h).1, onSuccess_halfOpenCalls h⟩
  | excluded => exact ⟨(onSuccess_halfOpen_iff.mp h).1, onSuccess_halfOpenCalls h⟩
  | failed => exact absurd h onFailure_state_ne
  | cancelled => exact ⟨h, rfl⟩

theorem report_halfOpen_iff (outcome : Outcome)
    : (s.report config outcome now).state = .halfOpen ↔
        s.breaker.state = .halfOpen ∧
          (outcome = .cancelled ∨
            (outcome ≠ .failed ∧ (s.breaker.successCount + 1 : Nat) < config.successThreshold)) := by
  cases outcome with
  | succeeded =>
    rw [show s.report config .succeeded now = s.breaker.onSuccess config now from rfl, onSuccess_halfOpen_iff]
    simp
  | excluded =>
    rw [show s.report config .excluded now = s.breaker.onSuccess config now from rfl, onSuccess_halfOpen_iff]
    simp
  | failed =>
    constructor
    . intro h
      exact absurd h onFailure_state_ne
    . intro h
      simp at h
  | cancelled => simp [Guarded.report]

theorem report_open (hclosed : s.breaker.state = .closed) (h : (s.report config outcome now).state = .open)
    : outcome = .failed ∧
        config.failureThreshold ≤ (s.breaker.withFailure config now).countRecentFailures config now := by
  cases outcome with
  | succeeded =>
    rw [show s.report config .succeeded now = s.breaker.onSuccess config now from rfl, onSuccess_of_closed hclosed] at h
    cases h
  | excluded =>
    rw [show s.report config .excluded now = s.breaker.onSuccess config now from rfl, onSuccess_of_closed hclosed] at h
    cases h
  | failed => exact ⟨rfl, (onFailure_open_iff hclosed).mp h⟩
  | cancelled =>
    rw [show s.report config .cancelled now = s.breaker from rfl, hclosed] at h
    cases h

theorem trip_state : (breaker.trip now).state = .open := by
  unfold trip
  split
  . assumption
  . simp

end Sections

section Steps

variable {config : CircuitBreakerConfig} {past : List Entry} {s : Guarded}

abbrev entry (config : CircuitBreakerConfig) (s : Guarded) (request : Request) : Entry :=
  Machine.entry (Guarded.step config) s request

theorem step_finish_of_idle (h : s.inFlight = 0) (outcome : Outcome) (now : Int)
    : Guarded.step config s (.finish outcome now) = (s, none) :=
  if_pos h

theorem step_finish_of_busy (h : 0 < s.inFlight) (outcome : Outcome) (now : Int)
    : Guarded.step config s (.finish outcome now)
        = ({ breaker := s.report config outcome now, inFlight := s.inFlight - 1 }, none) :=
  if_neg (Nat.ne_of_gt h)

theorem failuresInRow_concat_failed (past : List Entry) {now : Int} (hbusy : 0 < s.inFlight)
    (hclosed : s.breaker.state = .closed)
    : failuresInRow (past ++ [entry config s (.finish .failed now)]) = failuresInRow past + 1 := by
  apply countSince_concat_hit
  . show (s.breaker.state == .closed && !(Entry.completed _ false)) = true
    rw [hclosed]
    simp [Entry.completed, Machine.entry]
  . simp [Entry.completed, Machine.entry, hbusy]

theorem step_opens (config : CircuitBreakerConfig) (past : List Entry) (s : Guarded) (request : Request)
    : OpensAfterRow config past (entry config s request) ↔ WindowInRow config past (entry config s request) := by
  constructor
  . intro h now hrequest hpos hbefore hmany
    cases hrequest
    have hbusy : 0 < s.inFlight := hpos
    have hclosed : s.breaker.state = .closed := hbefore
    have hopen : (Guarded.step config s (.finish .failed now)).1.breaker.state = .open := by
      rw [step_finish_of_busy hbusy]
      exact (onFailure_open_iff hclosed).mpr hmany
    have hrow := h (by intro now' hne; cases hne) hclosed hopen
    rw [failuresInRow_concat_failed past hbusy hclosed] at hrow
    omega
  . intro h htrip hbefore hopen
    have hclosed : s.breaker.state = .closed := hbefore
    cases request with
    | call now =>
      have hstate : (s.breaker.admission config now).1.state = .open := hopen
      rw [admission_of_closed hclosed] at hstate
      have hsame : s.breaker.state = .open := hstate
      rw [hclosed] at hsame
      cases hsame
    | finish outcome now =>
      have hstate : (Guarded.step config s (.finish outcome now)).1.breaker.state = .open := hopen
      rcases Nat.eq_zero_or_pos s.inFlight with hidle | hbusy
      . rw [step_finish_of_idle hidle, hclosed] at hstate
        cases hstate
      . rw [step_finish_of_busy hbusy] at hstate
        have hmany := report_open hclosed hstate
        cases hmany.1
        rw [failuresInRow_concat_failed past hbusy hclosed]
        have hrow := h now rfl hbusy hclosed hmany.2
        omega
    | reset now => cases hopen
    | trip now => exact absurd rfl (htrip now)

theorem countSince_of_halfOpen (h : Inv config past s) (hstate : s.breaker.state = .halfOpen)
    : countSince Entry.inHalfOpen Entry.admitted past = s.breaker.halfOpenCalls := by
  rw [h.tests, if_pos hstate]

theorem admission_halfOpen {now : Int} (hstate : (s.breaker.admission config now).1.state = .halfOpen)
    : ∃ slots : Nat, slots = (if s.breaker.state = .halfOpen then s.breaker.halfOpenCalls else 0) ∧
        (((slots : Int) ≥ config.halfOpenRequests ∧ (s.breaker.admission config now).2 = false ∧
            (s.breaker.admission config now).1.halfOpenCalls = slots) ∨
          ((slots : Int) < config.halfOpenRequests ∧ (s.breaker.admission config now).2 = true ∧
            (s.breaker.admission config now).1.halfOpenCalls = slots + 1)) := by
  cases hbefore : s.breaker.state with
  | closed =>
    rw [admission_of_closed hbefore] at hstate
    have hsame : s.breaker.state = .halfOpen := hstate
    rw [hbefore] at hsame
    cases hsame
  | «open» =>
    cases hretry : s.breaker.shouldTryReset config now with
    | false =>
      rw [admission_of_waiting hbefore hretry] at hstate
      have hsame : s.breaker.state = .halfOpen := hstate
      rw [hbefore] at hsame
      cases hsame
    | true =>
      rw [admission_of_retrying hbefore hretry]
      refine ⟨0, rfl, ?_⟩
      rcases admitHalfOpen_cases config (s.breaker.transitionTo now .halfOpen) with ⟨hused, heq⟩ | ⟨hfree, heq⟩
      . rw [heq]
        exact Or.inl ⟨hused, rfl, rfl⟩
      . rw [heq]
        exact Or.inr ⟨hfree, rfl, rfl⟩
  | halfOpen =>
    rw [admission_of_halfOpen hbefore]
    refine ⟨s.breaker.halfOpenCalls, rfl, ?_⟩
    rcases admitHalfOpen_cases config s.breaker with ⟨hused, heq⟩ | ⟨hfree, heq⟩
    . rw [heq]
      exact Or.inl ⟨hused, rfl, rfl⟩
    . rw [heq]
      exact Or.inr ⟨hfree, rfl, rfl⟩

theorem call_tests (h : Inv config past s) {now : Int} (hstate : (s.breaker.admission config now).1.state = .halfOpen)
    : countSince Entry.inHalfOpen Entry.admitted (past ++ [entry config s (.call now)])
          = (s.breaker.admission config now).1.halfOpenCalls ∧
        ((s.breaker.admission config now).2 = true →
          (s.breaker.admission config now).1.halfOpenCalls ≤ config.halfOpenRequests) := by
  have hhalf : (entry config s (.call now)).inHalfOpen = true := beq_of_eq hstate
  rcases admission_halfOpen hstate with ⟨slots, hslots, hcases⟩
  rw [← h.tests] at hslots
  rcases hcases with ⟨_, hreply, hcalls⟩ | ⟨hfree, hreply, hcalls⟩
  . have hrejected : (entry config s (.call now)).admitted = false := by
      show (some (s.breaker.admission config now).2 == some true) = false
      rw [hreply]
      rfl
    rw [countSince_concat_miss past hhalf hrejected, ← hslots, hcalls, hreply]
    simp
  . have hadmitted : (entry config s (.call now)).admitted = true := by
      show (some (s.breaker.admission config now).2 == some true) = true
      rw [hreply]
      rfl
    rw [countSince_concat_hit past hhalf hadmitted, ← hslots, hcalls]
    refine ⟨rfl, ?_⟩
    intro _
    omega

theorem step_limits (h : Inv config past s) (request : Request)
    : LimitsTests config past (entry config s request) := by
  intro hhalf hadmitted
  cases request with
  | call now =>
    have htests := @call_tests _ _ _ h now (eq_of_beq hhalf)
    have hreply : some (s.breaker.admission config now).2 = some true := eq_of_beq hadmitted
    rw [htests.1]
    exact htests.2 (Option.some.inj hreply)
  | finish outcome now =>
    have hreply : (Guarded.step config s (.finish outcome now)).2 = some true := eq_of_beq hadmitted
    rcases Nat.eq_zero_or_pos s.inFlight with hidle | hbusy
    . rw [step_finish_of_idle hidle] at hreply
      cases hreply
    . rw [step_finish_of_busy hbusy] at hreply
      cases hreply
  | reset now => cases hadmitted
  | trip now => cases hadmitted

theorem countSince_of_left (past : List Entry) {e : Entry} (h : e.after.breaker.state ≠ .halfOpen)
    : countSince Entry.inHalfOpen Entry.admitted (past ++ [e]) =
        if e.after.breaker.state = .halfOpen then e.after.breaker.halfOpenCalls else 0 := by
  rw [if_neg h]
  apply countSince_concat_neg
  simpa [Entry.inHalfOpen] using h

theorem step_tests (h : Inv config past s) (request : Request)
    : countSince Entry.inHalfOpen Entry.admitted (past ++ [entry config s request])
        = if (Guarded.step config s request).1.breaker.state = .halfOpen then
            (Guarded.step config s request).1.breaker.halfOpenCalls else 0 := by
  by_cases hstate : (Guarded.step config s request).1.breaker.state = .halfOpen
  . have hhalf : (entry config s request).inHalfOpen = true := beq_of_eq hstate
    rw [if_pos hstate]
    cases request with
    | call now => exact (call_tests h hstate).1
    | finish outcome now =>
      have hsilent : (entry config s (.finish outcome now)).admitted = false := by
        show ((Guarded.step config s (.finish outcome now)).2 == some true) = false
        rcases Nat.eq_zero_or_pos s.inFlight with hidle | hbusy
        . rw [step_finish_of_idle hidle]
          rfl
        . rw [step_finish_of_busy hbusy]
          rfl
      rw [countSince_concat_miss past hhalf hsilent]
      rcases Nat.eq_zero_or_pos s.inFlight with hidle | hbusy
      . rw [step_finish_of_idle hidle] at hstate ⊢
        exact countSince_of_halfOpen h hstate
      . rw [step_finish_of_busy hbusy] at hstate ⊢
        have hsame := report_halfOpen hstate
        rw [countSince_of_halfOpen h hsame.1]
        exact hsame.2.symm
    | reset now => cases hstate
    | trip now =>
      have htrip : (s.breaker.trip now).state = .halfOpen := hstate
      rw [trip_state] at htrip
      cases htrip
  . exact countSince_of_left past hstate

theorem step_unstuck (h : Inv config past s) (request : Request)
    : ¬Stuck config (Guarded.step config s request).1 ↔ Unblocked config s request := by
  cases request with
  | call now =>
    constructor
    . intro hunstuck hidle hopen hretry
      by_contra hnone
      have heq : s.breaker.admission config now = ((s.breaker.transitionTo now .halfOpen).rejected, false) := by
        rw [admission_of_retrying hopen hretry]
        unfold admitHalfOpen
        rw [if_pos]
        show ((0 : Nat) : Int) ≥ config.halfOpenRequests
        omega
      apply hunstuck
      unfold Guarded.step
      dsimp only
      rw [heq]
      refine ⟨hidle, rfl, ?_⟩
      show ((0 : Nat) : Int) ≥ config.halfOpenRequests
      omega
    . intro hunblocked hstuck
      have hstate : (s.breaker.admission config now).1.state = .halfOpen := hstuck.halfOpen
      have hidle : (if (s.breaker.admission config now).2 = true then s.inFlight + 1 else s.inFlight) = 0 := hstuck.idle
      rcases admission_halfOpen hstate with ⟨slots, hslots, hcases⟩
      rcases hcases with ⟨hused, hreply, _⟩ | ⟨_, hreply, _⟩
      . rw [hreply, if_neg (by simp)] at hidle
        cases hbefore : s.breaker.state with
        | halfOpen =>
          apply h.unstuck
          refine ⟨hidle, hbefore, ?_⟩
          rw [hbefore, if_pos rfl] at hslots
          rw [← hslots]
          exact hused
        | closed =>
          rw [admission_of_closed hbefore] at hreply
          cases hreply
        | «open» =>
          cases hretry : s.breaker.shouldTryReset config now with
          | false =>
            rw [admission_of_waiting hbefore hretry] at hstate
            have hsame : s.breaker.state = .halfOpen := hstate
            rw [hbefore] at hsame
            cases hsame
          | true =>
            have hsome := hunblocked hidle hbefore hretry
            rw [hbefore, if_neg (by decide)] at hslots
            omega
      . rw [hreply, if_pos rfl] at hidle
        omega
  | finish outcome now =>
    rcases Nat.eq_zero_or_pos s.inFlight with hidle | hbusy
    . rw [step_finish_of_idle hidle]
      constructor
      . intro _ hone
        omega
      . intro _
        exact h.unstuck
    . rw [step_finish_of_busy hbusy]
      constructor
      . intro hunstuck hone hhalf hused
        have hleft : ¬(s.report config outcome now).state = .halfOpen := by
          intro hstate
          apply hunstuck
          refine ⟨?_, hstate, ?_⟩
          . show s.inFlight - 1 = 0
            omega
          . show ((s.report config outcome now).halfOpenCalls : Int) ≥ config.halfOpenRequests
            rw [(report_halfOpen hstate).2]
            exact hused
        rw [report_halfOpen_iff] at hleft
        constructor
        . intro hcancelled
          exact hleft ⟨hhalf, Or.inl hcancelled⟩
        . intro hfailed
          by_contra hfew
          apply hleft
          refine ⟨hhalf, Or.inr ⟨hfailed, ?_⟩⟩
          omega
      . intro hfrees hstuck
        have hstate : (s.report config outcome now).state = .halfOpen := hstuck.halfOpen
        have hsame := report_halfOpen hstate
        have hused : ((s.report config outcome now).halfOpenCalls : Int) ≥ config.halfOpenRequests := hstuck.used
        have hidle : s.inFlight - 1 = 0 := hstuck.idle
        rw [hsame.2] at hused
        have hfree := hfrees (by omega) hsame.1 hused
        rcases ((report_halfOpen_iff outcome).mp hstate).2 with hcancelled | ⟨hfailed, hfew⟩
        . exact hfree.1 hcancelled
        . have := hfree.2 hfailed
          omega
  | reset now =>
    constructor
    . intro _
      trivial
    . intro _ hstuck
      cases hstuck.halfOpen
  | trip now =>
    constructor
    . intro _
      trivial
    . intro _ hstuck
      have htrip : (s.breaker.trip now).state = .halfOpen := hstuck.halfOpen
      rw [trip_state] at htrip
      cases htrip

theorem step_guards (h : Inv config past s) (request : Request)
    : (Guards config past (entry config s request) ↔ Regular config past (entry config s request)) ∧
        (Regular config past (entry config s request) →
          Inv config (past ++ [entry config s request]) (Guarded.step config s request).1) := by
  constructor
  . constructor
    . intro hguards
      exact ⟨(step_opens config past s request).mp hguards.opens, (step_unstuck h request).mp hguards.unstuck⟩
    . intro hregular
      exact ⟨(step_opens config past s request).mpr hregular.row, step_limits h request,
        (step_unstuck h request).mpr hregular.unblocked⟩
  . intro hregular
    exact ⟨step_tests h request, (step_unstuck h request).mpr hregular.unblocked⟩

theorem created_inv (config : CircuitBreakerConfig) (now : Int) : Inv config [] (Guarded.created now) where
  tests := rfl
  unstuck := by
    intro hstuck
    cases hstuck.halfOpen

/--
In every run the number of tests is limited. The other two guarantees hold just where the window counts
failures that came in a row, and where the last test call frees the circuit.
-/
theorem pool_guards_run_iff (config : CircuitBreakerConfig) (now : Int) (requests : List Request)
    : AtEach (Guards config) (Machine.transcript (Guarded.step config) (Guarded.created now) requests) ↔
        AtEach (Regular config) (Machine.transcript (Guarded.step config) (Guarded.created now) requests) := by
  apply @Machine.atEach_transcript_iff _ _ _ (Guarded.step config) (Inv config) (Guards config) (Regular config)
  . intro past s request h
    exact step_guards h request
  . exact created_inv config now

/--
Four failures, a success and a failure open a circuit that waits for five failures in a row.
-/
theorem opened_without_row
    : ∃ requests : List Request,
        ¬AtEach (Guards {}) (Machine.transcript (Guarded.step {}) (Guarded.created 0) requests) := by
  refine ⟨(List.replicate 4 [.call 0, .finish .failed 0]).flatten ++
    [.call 1, .finish .succeeded 1, .call 2, .finish .failed 2], ?_⟩
  intro h
  have hlast := h.get (n := 11) rfl
  have hrow := hlast.opens (by intro now hne; cases hne) rfl (by decide)
  revert hrow
  decide

def SlotsHeld (s : Guarded) : Prop :=
  s.breaker.state = .halfOpen → s.breaker.halfOpenCalls ≤ s.breaker.successCount + s.inFlight

theorem onSuccess_successCount (breaker : CircuitBreaker) (now : Int)
    (h : (breaker.onSuccess config now).state = .halfOpen)
    : (breaker.onSuccess config now).successCount = breaker.successCount + 1 := by
  have hbefore := onSuccess_halfOpen_iff.mp h
  unfold onSuccess
  dsimp only
  rw [hbefore.1]
  dsimp only
  rw [if_neg (by omega)]

theorem admitHalfOpen_slotsHeld (breaker : CircuitBreaker) (inFlight : Nat)
    (h : breaker.halfOpenCalls ≤ breaker.successCount + inFlight)
    : (breaker.admitHalfOpen config).1.halfOpenCalls ≤ (breaker.admitHalfOpen config).1.successCount +
        if (breaker.admitHalfOpen config).2 = true then inFlight + 1 else inFlight := by
  rcases admitHalfOpen_cases config breaker with ⟨_, heq⟩ | ⟨_, heq⟩
  . rw [heq]
    exact h
  . rw [heq]
    show breaker.halfOpenCalls + 1 ≤ breaker.successCount + (inFlight + 1)
    omega

theorem step_slotsHeld (h : SlotsHeld s) (request : Request) (hends : ∀ now, request ≠ .finish .cancelled now)
    : SlotsHeld (Guarded.step config s request).1 := by
  intro hstate
  cases request with
  | call now =>
    have hadmit : (s.breaker.admission config now).1.state = .halfOpen := hstate
    show (s.breaker.admission config now).1.halfOpenCalls ≤ (s.breaker.admission config now).1.successCount +
      if (s.breaker.admission config now).2 = true then s.inFlight + 1 else s.inFlight
    cases hbefore : s.breaker.state with
    | closed =>
      rw [admission_of_closed hbefore] at hadmit
      have hsame : s.breaker.state = .halfOpen := hadmit
      rw [hbefore] at hsame
      cases hsame
    | «open» =>
      cases hretry : s.breaker.shouldTryReset config now with
      | false =>
        rw [admission_of_waiting hbefore hretry] at hadmit
        have hsame : s.breaker.state = .halfOpen := hadmit
        rw [hbefore] at hsame
        cases hsame
      | true =>
        rw [admission_of_retrying hbefore hretry]
        apply admitHalfOpen_slotsHeld
        apply Nat.zero_le
    | halfOpen =>
      rw [admission_of_halfOpen hbefore]
      apply admitHalfOpen_slotsHeld
      exact h hbefore
  | finish outcome now =>
    rcases Nat.eq_zero_or_pos s.inFlight with hidle | hbusy
    . rw [step_finish_of_idle hidle] at hstate ⊢
      exact h hstate
    . rw [step_finish_of_busy hbusy] at hstate ⊢
      have hsame := report_halfOpen hstate
      have hheld := h hsame.1
      have hcount : (s.report config outcome now).successCount = s.breaker.successCount + 1 := by
        cases outcome with
        | succeeded => exact onSuccess_successCount _ _ hstate
        | excluded => exact onSuccess_successCount _ _ hstate
        | failed => exact absurd hstate onFailure_state_ne
        | cancelled => exact absurd rfl (hends now)
      show (s.report config outcome now).halfOpenCalls ≤ (s.report config outcome now).successCount + (s.inFlight - 1)
      rw [hsame.2, hcount]
      omega
  | reset now => cases hstate
  | trip now =>
    have htrip : (s.breaker.trip now).state = .halfOpen := hstate
    rw [trip_state] at htrip
    cases htrip

theorem unblocked_of_slotsHeld (h : SlotsHeld s) (hslots : 0 < config.halfOpenRequests)
    (hthreshold : config.successThreshold ≤ config.halfOpenRequests) (request : Request)
    (hends : ∀ now, request ≠ .finish .cancelled now)
    : Unblocked config s request := by
  cases request with
  | call now =>
    intro _ _ _
    exact hslots
  | finish outcome now =>
    intro hone hhalf hused
    have hheld := h hhalf
    constructor
    . intro hcancelled
      rw [hcancelled] at hends
      exact hends now rfl
    . intro _
      omega
  | reset now => trivial
  | trip now => trivial

theorem unblocked_run (hslots : 0 < config.halfOpenRequests)
    (hthreshold : config.successThreshold ≤ config.halfOpenRequests) (now : Int) (requests : List Request)
    (hends : ∀ now, .finish .cancelled now ∉ requests)
    : ∀ e ∈ Machine.transcript (Guarded.step config) (Guarded.created now) requests,
        Unblocked config e.before e.request := by
  have hkept : ∀ request ∈ requests, ∀ now, request ≠ Request.finish .cancelled now := by
    intro request hrequest now heq
    rw [heq] at hrequest
    exact hends now hrequest
  apply @Machine.forall_transcript _ _ _ (Guarded.step config)
    (fun _ request => ∀ now, request ≠ .finish .cancelled now) SlotsHeld
    (fun e => Unblocked config e.before e.request)
  . intro s request h hkeeps
    exact ⟨unblocked_of_slotsHeld h hslots hthreshold request hkeeps, step_slotsHeld h request hkeeps⟩
  . intro hstate
    cases hstate
  . intro e he
    exact hkept e.request (Machine.request_mem_of_mem he)

end Steps

end CircuitBreaker
end Pool
end Agent
end MemStack
