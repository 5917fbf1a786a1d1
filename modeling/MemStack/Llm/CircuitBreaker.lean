import MemStack.Util.Since

/-!
This module contains the circuit breaker in front of an LLM provider. Each of its methods runs to its
end before the next one starts, so callers are the order of the requests. Times and timeouts are
microseconds, and one call reads the clock once. The counter of half-open requests never moves, so over all
runs the limit on test requests holds only as long as nobody asks more often.
-/

namespace MemStack

namespace Llm

inductive CircuitState where
  | closed
  | «open»
  | halfOpen
  deriving DecidableEq

structure CircuitBreakerConfig where
  failureThreshold : Int := 5
  successThreshold : Int := 2
  recoveryTimeout : Int := 60 * 1000000
  halfOpenMaxRequests : Int := 3

structure CircuitBreakerStats where
  totalRequests : Nat := 0
  successfulRequests : Nat := 0
  failedRequests : Nat := 0
  rejectedRequests : Nat := 0
  stateChanges : Nat := 0
  lastFailureTime : Option Int := none
  lastSuccessTime : Option Int := none
  lastStateChange : Option Int := none

structure CircuitBreaker where
  state : CircuitState := .closed
  failureCount : Nat := 0
  successCount : Nat := 0
  halfOpenRequests : Nat := 0
  lastFailureTime : Option Int := none
  lastStateChange : Int
  stats : CircuitBreakerStats := {}

namespace CircuitBreaker

variable (config : CircuitBreakerConfig)

def transitionTo (now : Int) (newState : CircuitState) (breaker : CircuitBreaker) : CircuitBreaker :=
  if breaker.state = newState then breaker
  else
    let changed := { breaker with
      state := newState
      lastStateChange := now
      stats := { breaker.stats with
        stateChanges := breaker.stats.stateChanges + 1
        lastStateChange := some now } }
    match newState with
    | .closed => { changed with failureCount := 0, successCount := 0, halfOpenRequests := 0 }
    | .halfOpen => { changed with successCount := 0, halfOpenRequests := 0 }
    | .open => { changed with successCount := 0 }

def checkStateTransition (now : Int) (breaker : CircuitBreaker) : CircuitBreaker :=
  match breaker.state, breaker.lastFailureTime with
  | .open, some failed =>
    if now - failed ≥ config.recoveryTimeout then breaker.transitionTo now .halfOpen else breaker
  | _, _ => breaker

def rejected (breaker : CircuitBreaker) : CircuitBreaker :=
  { breaker with stats := { breaker.stats with rejectedRequests := breaker.stats.rejectedRequests + 1 } }

def canExecute (now : Int) (breaker : CircuitBreaker) : CircuitBreaker × Bool :=
  let breaker := breaker.checkStateTransition config now
  match breaker.state with
  | .closed => (breaker, true)
  | .halfOpen =>
    if breaker.halfOpenRequests < config.halfOpenMaxRequests then (breaker, true)
    else (breaker.rejected, false)
  | .open => (breaker.rejected, false)

def recordSuccess (now : Int) (breaker : CircuitBreaker) : CircuitBreaker :=
  let breaker := { breaker with
    stats := { breaker.stats with
      totalRequests := breaker.stats.totalRequests + 1
      successfulRequests := breaker.stats.successfulRequests + 1
      lastSuccessTime := some now } }
  match breaker.state with
  | .halfOpen =>
    let breaker := { breaker with successCount := breaker.successCount + 1 }
    if breaker.successCount ≥ config.successThreshold then breaker.transitionTo now .closed else breaker
  | .closed => { breaker with failureCount := 0 }
  | .open => breaker

def recordFailure (now : Int) (breaker : CircuitBreaker) : CircuitBreaker :=
  let breaker := { breaker with
    stats := { breaker.stats with
      totalRequests := breaker.stats.totalRequests + 1
      failedRequests := breaker.stats.failedRequests + 1
      lastFailureTime := some now }
    lastFailureTime := some now }
  match breaker.state with
  | .halfOpen => breaker.transitionTo now .open
  | .closed =>
    let breaker := { breaker with failureCount := breaker.failureCount + 1 }
    if breaker.failureCount ≥ config.failureThreshold then breaker.transitionTo now .open else breaker
  | .open => breaker

def reset (now : Int) (breaker : CircuitBreaker) : CircuitBreaker :=
  { breaker.transitionTo now .closed with failureCount := 0, successCount := 0, halfOpenRequests := 0 }

inductive Call where
  | canExecute
  | recordSuccess
  | recordFailure
  | reset
  deriving DecidableEq

structure Request where
  call : Call
  now : Int

-- Only `can_execute` answers something.
def step (breaker : CircuitBreaker) (request : Request) : CircuitBreaker × Option Bool :=
  match request.call with
  | .canExecute =>
    let (breaker, admitted) := breaker.canExecute config request.now
    (breaker, some admitted)
  | .recordSuccess => (breaker.recordSuccess config request.now, none)
  | .recordFailure => (breaker.recordFailure config request.now, none)
  | .reset => (breaker.reset request.now, none)

def created (now : Int) : CircuitBreaker := { lastStateChange := now }

open History

variable {config} {breaker : CircuitBreaker} {now : Int}

@[simp]
theorem transitionTo_state (newState : CircuitState) : (breaker.transitionTo now newState).state = newState := by
  unfold transitionTo
  split
  . assumption
  . cases newState <;> rfl

@[simp]
theorem transitionTo_lastFailureTime (newState : CircuitState)
    : (breaker.transitionTo now newState).lastFailureTime = breaker.lastFailureTime := by
  unfold transitionTo
  split
  . rfl
  . cases newState <;> rfl

theorem transitionTo_halfOpenRequests (newState : CircuitState) (h : breaker.halfOpenRequests = 0)
    : (breaker.transitionTo now newState).halfOpenRequests = 0 := by
  unfold transitionTo
  split
  . exact h
  . cases newState with
    | closed => rfl
    | halfOpen => rfl
    | «open» => exact h

theorem transitionTo_failureCount (h : breaker.state ≠ .closed)
    : (breaker.transitionTo now .closed).failureCount = 0 := by
  unfold transitionTo
  rw [if_neg h]

theorem checkStateTransition_of_ne (h : breaker.state ≠ .open) : breaker.checkStateTransition config now = breaker := by
  unfold checkStateTransition
  cases hstate : breaker.state with
  | closed => rfl
  | halfOpen => rfl
  | «open» => exact absurd hstate h

theorem checkStateTransition_cases (h : breaker.state = .open)
    : breaker.checkStateTransition config now = breaker ∨
        ∃ failed, breaker.lastFailureTime = some failed ∧ now - failed ≥ config.recoveryTimeout ∧
          breaker.checkStateTransition config now = breaker.transitionTo now .halfOpen := by
  unfold checkStateTransition
  rw [h]
  cases hfailed : breaker.lastFailureTime with
  | none =>
    left
    rfl
  | some failed =>
    dsimp only
    split
    . next hpassed =>
      right
      exact ⟨failed, rfl, hpassed, rfl⟩
    . left
      rfl

@[simp]
theorem checkStateTransition_lastFailureTime
    : (breaker.checkStateTransition config now).lastFailureTime = breaker.lastFailureTime := by
  unfold checkStateTransition
  split
  . split <;> simp
  . rfl

theorem checkStateTransition_halfOpenRequests (h : breaker.halfOpenRequests = 0)
    : (breaker.checkStateTransition config now).halfOpenRequests = 0 := by
  unfold checkStateTransition
  split
  . split
    . apply transitionTo_halfOpenRequests _ h
    . exact h
  . exact h

theorem checkStateTransition_closed (h : (breaker.checkStateTransition config now).state = .closed)
    : breaker.state = .closed := by
  unfold checkStateTransition at h
  split at h
  . split at h
    . simp at h
    . exact h
  . exact h

theorem canExecute_cases
    : (breaker.canExecute config now).1 = breaker.checkStateTransition config now ∨
        (breaker.canExecute config now).1 = (breaker.checkStateTransition config now).rejected := by
  unfold canExecute
  dsimp only
  cases (breaker.checkStateTransition config now).state with
  | closed =>
    left
    rfl
  | halfOpen =>
    dsimp only
    split
    . left
      rfl
    . right
      rfl
  | «open» =>
    right
    rfl

@[simp]
theorem canExecute_state
    : (breaker.canExecute config now).1.state = (breaker.checkStateTransition config now).state := by
  rcases @canExecute_cases config breaker now with h | h
  . rw [h]
  . rw [h]
    rfl

@[simp]
theorem canExecute_lastFailureTime
    : (breaker.canExecute config now).1.lastFailureTime = breaker.lastFailureTime := by
  rcases @canExecute_cases config breaker now with h | h
  . rw [h, checkStateTransition_lastFailureTime]
  . rw [h]
    exact checkStateTransition_lastFailureTime

theorem canExecute_halfOpenRequests (h : breaker.halfOpenRequests = 0)
    : (breaker.canExecute config now).1.halfOpenRequests = 0 := by
  rcases @canExecute_cases config breaker now with hcase | hcase
  . rw [hcase, checkStateTransition_halfOpenRequests h]
  . rw [hcase]
    exact checkStateTransition_halfOpenRequests h

theorem canExecute_halfOpen (h : breaker.halfOpenRequests = 0)
    (hstate : (breaker.checkStateTransition config now).state = .halfOpen)
    : (breaker.canExecute config now).2 = decide (0 < config.halfOpenMaxRequests) := by
  unfold canExecute
  dsimp only
  rw [hstate]
  dsimp only
  rw [checkStateTransition_halfOpenRequests h]
  split
  . next hlt => simpa using hlt
  . next hlt => simpa using hlt

theorem canExecute_open (hstate : (breaker.checkStateTransition config now).state = .open)
    : (breaker.canExecute config now).2 = false := by
  unfold canExecute
  dsimp only
  rw [hstate]

abbrev Entry := Machine.Entry CircuitBreaker Request (Option Bool)

def Entry.calls (call : Call) (entry : Entry) : Bool :=
  entry.request.call == call

def Entry.admitted (entry : Entry) : Bool :=
  entry.reply == some true

def Entry.inHalfOpen (entry : Entry) : Bool :=
  entry.after.state == .halfOpen

def lastFailure (past : List Entry) : Option Int :=
  (past.filter (Entry.calls .recordFailure)).getLast?.map (·.request.now)

variable (config)

def WaitsWhileOpen (past : List Entry) (entry : Entry) : Prop :=
  entry.before.state = .open → entry.admitted = true →
    ∃ failed, lastFailure past = some failed ∧ entry.request.now - failed ≥ config.recoveryTimeout

def LimitsTests (past : List Entry) (entry : Entry) : Prop :=
  entry.inHalfOpen = true → entry.admitted = true →
    countSince Entry.inHalfOpen Entry.admitted (past ++ [entry]) ≤ config.halfOpenMaxRequests

def OpensAfterFailures (past : List Entry) (entry : Entry) : Prop :=
  entry.before.state = .closed → entry.after.state = .open →
    config.failureThreshold ≤ countSince (!Entry.calls .recordSuccess ·) (Entry.calls .recordFailure) (past ++ [entry])

structure Guards (past : List Entry) (entry : Entry) : Prop where
  waits : WaitsWhileOpen config past entry
  limits : LimitsTests config past entry
  opens : OpensAfterFailures config past entry

def AskedWithinLimit (past : List Entry) (entry : Entry) : Prop :=
  0 < config.halfOpenMaxRequests → entry.request.call = .canExecute →
    (entry.before.checkStateTransition config entry.request.now).state = .halfOpen →
    countSince Entry.inHalfOpen (Entry.calls .canExecute) past < config.halfOpenMaxRequests

structure Inv (past : List Entry) (breaker : CircuitBreaker) : Prop where
  failed : breaker.lastFailureTime = lastFailure past
  untested : breaker.halfOpenRequests = 0
  failures : breaker.state = .closed →
    breaker.failureCount ≤ countSince (!Entry.calls .recordSuccess ·) (Entry.calls .recordFailure) past
  asked : 0 < config.halfOpenMaxRequests →
    countSince Entry.inHalfOpen Entry.admitted past = countSince Entry.inHalfOpen (Entry.calls .canExecute) past

variable {config} {past : List Entry} {request : Request}

abbrev entry (config : CircuitBreakerConfig) (breaker : CircuitBreaker) (request : Request) : Entry :=
  Machine.entry (step config) breaker request

theorem lastFailure_concat_hit (past : List Entry) {e : Entry} (h : e.calls .recordFailure = true)
    : lastFailure (past ++ [e]) = some e.request.now := by
  rw [lastFailure, List.filter_append]
  simp [h]

theorem lastFailure_concat_miss (past : List Entry) {e : Entry} (h : e.calls .recordFailure = false)
    : lastFailure (past ++ [e]) = lastFailure past := by
  rw [lastFailure, List.filter_append]
  simp [h, lastFailure]

theorem step_lastFailureTime (h : Inv config past breaker)
    : (step config breaker request).1.lastFailureTime = lastFailure (past ++ [entry config breaker request]) := by
  cases request with
  | mk call now =>
    cases call with
    | canExecute =>
      rw [lastFailure_concat_miss past rfl, ← h.failed]
      exact canExecute_lastFailureTime
    | recordSuccess =>
      rw [lastFailure_concat_miss past rfl, ← h.failed]
      show (breaker.recordSuccess config now).lastFailureTime = _
      unfold recordSuccess
      cases breaker.state with
      | halfOpen =>
        dsimp only
        split <;> simp
      | closed => rfl
      | «open» => rfl
    | recordFailure =>
      rw [lastFailure_concat_hit past rfl]
      show (breaker.recordFailure config now).lastFailureTime = some now
      unfold recordFailure
      cases breaker.state with
      | halfOpen => simp
      | closed =>
        dsimp only
        split <;> simp
      | «open» => rfl
    | reset =>
      rw [lastFailure_concat_miss past rfl, ← h.failed]
      exact transitionTo_lastFailureTime _

theorem step_halfOpenRequests (h : breaker.halfOpenRequests = 0)
    : (step config breaker request).1.halfOpenRequests = 0 := by
  cases request with
  | mk call now =>
    cases call with
    | canExecute => exact canExecute_halfOpenRequests h
    | recordSuccess =>
      show (breaker.recordSuccess config now).halfOpenRequests = 0
      unfold recordSuccess
      cases breaker.state with
      | halfOpen =>
        dsimp only
        split
        . exact transitionTo_halfOpenRequests _ h
        . exact h
      | closed => exact h
      | «open» => exact h
    | recordFailure =>
      show (breaker.recordFailure config now).halfOpenRequests = 0
      unfold recordFailure
      cases breaker.state with
      | halfOpen => exact transitionTo_halfOpenRequests _ h
      | closed =>
        dsimp only
        split
        . exact transitionTo_halfOpenRequests _ h
        . exact h
      | «open» => exact h
    | reset => rfl

theorem recordSuccess_failureCount (h : (breaker.recordSuccess config now).state = .closed)
    : (breaker.recordSuccess config now).failureCount = 0 := by
  unfold recordSuccess at h ⊢
  cases hstate : breaker.state with
  | halfOpen =>
    rw [hstate] at h
    dsimp only at h ⊢
    split
    . apply transitionTo_failureCount
      simp
    . next hfew =>
      rw [if_neg hfew] at h
      cases h
  | closed => rfl
  | «open» =>
    rw [hstate] at h
    cases h

theorem recordFailure_closed (h : (breaker.recordFailure config now).state = .closed)
    : breaker.state = .closed ∧ (breaker.recordFailure config now).failureCount = breaker.failureCount + 1 := by
  unfold recordFailure at h ⊢
  cases hstate : breaker.state with
  | halfOpen =>
    rw [hstate] at h
    simp at h
  | closed =>
    rw [hstate] at h
    dsimp only at h ⊢
    split
    . next hmany =>
      rw [if_pos hmany] at h
      simp at h
    . exact ⟨rfl, rfl⟩
  | «open» =>
    rw [hstate] at h
    cases h

theorem canExecute_closed (h : (breaker.canExecute config now).1.state = .closed)
    : breaker.state = .closed ∧ (breaker.canExecute config now).1.failureCount = breaker.failureCount := by
  rw [canExecute_state] at h
  have hclosed := checkStateTransition_closed h
  have hsame : breaker.checkStateTransition config now = breaker := by
    apply checkStateTransition_of_ne
    rw [hclosed]
    decide
  refine ⟨hclosed, ?_⟩
  rcases @canExecute_cases config breaker now with hcase | hcase
  . rw [hcase, hsame]
  . rw [hcase, hsame]
    rfl

theorem step_failures (h : Inv config past breaker) (hclosed : (step config breaker request).1.state = .closed)
    : (step config breaker request).1.failureCount ≤
        countSince (!Entry.calls .recordSuccess ·) (Entry.calls .recordFailure)
          (past ++ [entry config breaker request]) := by
  cases request with
  | mk call now =>
    cases call with
    | canExecute =>
      have hsame := canExecute_closed hclosed
      rw [countSince_concat_miss past rfl rfl]
      have := h.failures hsame.1
      rw [← hsame.2] at this
      exact this
    | recordSuccess =>
      have hzero : (step config breaker ⟨.recordSuccess, now⟩).1.failureCount = 0 := recordSuccess_failureCount hclosed
      rw [hzero]
      apply Nat.zero_le
    | recordFailure =>
      have hone := recordFailure_closed hclosed
      rw [countSince_concat_hit past rfl rfl]
      show (breaker.recordFailure config now).failureCount ≤ _
      rw [hone.2]
      have := h.failures hone.1
      omega
    | reset =>
      show 0 ≤ _
      apply Nat.zero_le

theorem canExecute_admits (h : breaker.halfOpenRequests = 0) (hmax : 0 < config.halfOpenMaxRequests)
    (hhalf : (entry config breaker ⟨.canExecute, now⟩).inHalfOpen = true)
    : (entry config breaker ⟨.canExecute, now⟩).admitted = true := by
  have hstate : (breaker.canExecute config now).1.state = .halfOpen := eq_of_beq hhalf
  rw [canExecute_state] at hstate
  have hreply : (breaker.canExecute config now).2 = true := by
    rw [canExecute_halfOpen h hstate]
    simpa using hmax
  show (some (breaker.canExecute config now).2 == some true) = true
  rw [hreply]
  rfl

theorem step_asked (h : Inv config past breaker) (hmax : 0 < config.halfOpenMaxRequests)
    : countSince Entry.inHalfOpen Entry.admitted (past ++ [entry config breaker request])
        = countSince Entry.inHalfOpen (Entry.calls .canExecute) (past ++ [entry config breaker request]) := by
  cases hhalf : (entry config breaker request).inHalfOpen with
  | false => rw [countSince_concat_neg past hhalf, countSince_concat_neg past hhalf]
  | true =>
    cases request with
    | mk call now =>
      cases call with
      | canExecute =>
        have hadmitted := canExecute_admits h.untested hmax hhalf
        rw [countSince_concat_hit past hhalf hadmitted, countSince_concat_hit past hhalf rfl, h.asked hmax]
      | recordSuccess =>
        rw [countSince_concat_miss past hhalf rfl, countSince_concat_miss past hhalf rfl, h.asked hmax]
      | recordFailure =>
        rw [countSince_concat_miss past hhalf rfl, countSince_concat_miss past hhalf rfl, h.asked hmax]
      | reset =>
        rw [countSince_concat_miss past hhalf rfl, countSince_concat_miss past hhalf rfl, h.asked hmax]

theorem step_inv (h : Inv config past breaker) (request : Request)
    : Inv config (past ++ [entry config breaker request]) (step config breaker request).1 where
  failed := step_lastFailureTime h
  untested := step_halfOpenRequests h.untested
  failures := step_failures h
  asked := step_asked h

theorem canExecute_of_admitted (h : (entry config breaker request).admitted = true)
    : request.call = .canExecute ∧ (breaker.canExecute config request.now).2 = true := by
  cases request with
  | mk call now =>
    cases call with
    | canExecute =>
      have hreply : some (breaker.canExecute config now).2 = some true := eq_of_beq h
      exact ⟨rfl, Option.some.inj hreply⟩
    | recordSuccess => cases h
    | recordFailure => cases h
    | reset => cases h

theorem step_waits (h : Inv config past breaker) (request : Request)
    : WaitsWhileOpen config past (entry config breaker request) := by
  intro hopen hadmitted
  have hreply := (canExecute_of_admitted hadmitted).2
  rcases @checkStateTransition_cases config breaker request.now hopen with hsame | ⟨failed, hfailed, hpassed, _⟩
  . have hstays : (breaker.checkStateTransition config request.now).state = .open := by
      rw [hsame]
      exact hopen
    rw [canExecute_open hstays] at hreply
    cases hreply
  . refine ⟨failed, ?_, hpassed⟩
    rw [← h.failed, hfailed]

theorem step_limits (h : Inv config past breaker) (request : Request)
    : LimitsTests config past (entry config breaker request)
        ↔ AskedWithinLimit config past (entry config breaker request) := by
  constructor
  . intro hlimits hmax hcall hstate
    cases request with
    | mk call now =>
      cases hcall
      have hhalf : (entry config breaker ⟨.canExecute, now⟩).inHalfOpen = true := by
        show ((breaker.canExecute config now).1.state == .halfOpen) = true
        rw [canExecute_state]
        exact beq_of_eq hstate
      have hadmitted := canExecute_admits h.untested hmax hhalf
      have hwithin := hlimits hhalf hadmitted
      rw [countSince_concat_hit past hhalf hadmitted, h.asked hmax] at hwithin
      omega
  . intro hasked hhalf hadmitted
    have hexecute := canExecute_of_admitted hadmitted
    cases request with
    | mk call now =>
      cases hexecute.1
      have hstate : (breaker.canExecute config now).1.state = .halfOpen := eq_of_beq hhalf
      rw [canExecute_state] at hstate
      have hmax : 0 < config.halfOpenMaxRequests := by
        rw [canExecute_halfOpen h.untested hstate] at hexecute
        simpa using hexecute.2
      have hwithin := hasked hmax rfl hstate
      rw [countSince_concat_hit past hhalf hadmitted, h.asked hmax]
      omega

theorem recordSuccess_of_closed (h : breaker.state = .closed) : (breaker.recordSuccess config now).state = .closed := by
  unfold recordSuccess
  dsimp only
  rw [h]

theorem recordFailure_of_closed (h : breaker.state = .closed) (hopen : (breaker.recordFailure config now).state = .open)
    : config.failureThreshold ≤ (breaker.failureCount + 1 : Nat) := by
  unfold recordFailure at hopen
  dsimp only at hopen
  rw [h] at hopen
  dsimp only at hopen
  split at hopen
  . next hmany => exact hmany
  . cases hopen

theorem step_opens (h : Inv config past breaker) (request : Request)
    : OpensAfterFailures config past (entry config breaker request) := by
  intro hbefore hopen
  have hclosed : breaker.state = .closed := hbefore
  have hne : breaker.state ≠ .open := by
    rw [hclosed]
    decide
  cases request with
  | mk call now =>
    cases call with
    | canExecute =>
      have hstate : (breaker.canExecute config now).1.state = .open := hopen
      rw [canExecute_state, checkStateTransition_of_ne hne] at hstate
      exact absurd hstate hne
    | recordSuccess =>
      have hstate : (breaker.recordSuccess config now).state = .open := hopen
      rw [recordSuccess_of_closed hclosed] at hstate
      cases hstate
    | recordFailure =>
      have hmany := @recordFailure_of_closed config breaker now hclosed hopen
      have hfailures := h.failures hclosed
      rw [countSince_concat_hit past rfl rfl]
      omega
    | reset =>
      have hstate : (breaker.transitionTo now .closed).state = .open := hopen
      rw [transitionTo_state] at hstate
      cases hstate

theorem step_guards (h : Inv config past breaker) (request : Request)
    : Guards config past (entry config breaker request)
        ↔ AskedWithinLimit config past (entry config breaker request) := by
  rw [← step_limits h request]
  constructor
  . intro hguards
    exact hguards.limits
  . intro hlimits
    exact ⟨step_waits h request, hlimits, step_opens h request⟩

theorem created_inv (config : CircuitBreakerConfig) (now : Int) : Inv config [] (created now) where
  failed := rfl
  untested := rfl
  failures _ := Nat.zero_le _
  asked _ := rfl

/--
Nothing is admitted too early and nothing opens too early, in any run; the limit on tests is kept just
by the runs that never ask more often than it allows.
-/
theorem guards_run_iff (config : CircuitBreakerConfig) (now : Int) (requests : List Request)
    : AtEach (Guards config) (Machine.transcript (step config) (created now) requests) ↔
        AtEach (AskedWithinLimit config) (Machine.transcript (step config) (created now) requests) := by
  apply atEach_iff
  apply @Machine.atEach_transcript _ _ _ (step config) (fun _ _ => True) (Inv config)
    (fun past e => Guards config past e ↔ AskedWithinLimit config past e) _ _ (created_inv config now)
  . intro _ _
    trivial
  . intro past breaker request h _
    exact ⟨step_guards h request, step_inv h request⟩

/--
Five failures, a minute later four requests: all four are admitted.
-/
theorem tests_unlimited
    : ∃ requests : List Request, (requests.map (·.now)).Pairwise (· ≤ ·) ∧
        ¬AtEach (Guards {}) (Machine.transcript (step {}) (created 0) requests) := by
  refine ⟨List.replicate 5 ⟨.recordFailure, 0⟩ ++ List.replicate 4 ⟨.canExecute, 60000000⟩, by decide, ?_⟩
  intro h
  have hlast := h.get (n := 8) rfl
  have hlimit := hlast.limits rfl rfl
  revert hlimit
  decide

end CircuitBreaker

end Llm

end MemStack
