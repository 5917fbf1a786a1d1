import MemStack.Agent.React.Replay

/-!
This module shows when a run that is killed right after checkpoints and started again ends like the run that is left
alone.
-/

namespace MemStack
namespace Agent

open Port Prog

def withLine (transcript : List TranscriptEntry) (entry : TranscriptEntry) : List TranscriptEntry :=
  if entry ∈ transcript then transcript else transcript ++ [entry]

def Planner.Stable (planner : Planner) : Prop :=
  ∀ goal round transcript tools tool inputJson,
    planner goal round transcript tools = .ok (.callTool tool inputJson) →
    planner goal round (withLine transcript ⟨round, .action, s!"{tool} {inputJson}"⟩) tools
      = .ok (.callTool tool inputJson)

def Disk.start (d : Disk) (sessionId goal : String) (projectId : Option String) : SessionState :=
  d.store.getD (SessionState.new sessionId goal projectId)

def ReActEngine.roundsLeft (e : ReActEngine) (s : SessionState) : Nat :=
  if s.status = .running then (e.maxRounds - s.round) + s.pendingHitl.isSome.toNat + 1 else 0

-- For all engines without instruments, sessions, tools and crashes: the run that is left alone
-- returns, it makes no call twice, and after the crashes the run that is left alone then ends with the
-- same result, the same store and the same calls.
def CrashSafe (planner : Planner) : Prop :=
  ∀ (e : ReActEngine) (h : Host) (sessionId goal : String) (projectId : Option String)
    (store : Option SessionState) (crashes : List Nat) (fuel : Nat),
    e.doomCfg = none → e.costBudget = none → h.planner = planner →
    e.roundsLeft (Disk.start { store, calls := [] } sessionId goal projectId) < fuel →
    let run := e.run fuel sessionId goal projectId
    let alone := h.complete run { store, calls := [] }
    alone.2.isSome ∧ alone.1.calls.Nodup ∧
      h.complete run (crashes.foldl (h.crash run) { store, calls := [] }) = alone

section Spec

variable {e : ReActEngine} {h : Host}

inductive PlanSpec (e : ReActEngine) (h : Host) (s : SessionState) : RoundPlan → Prop where
  | idle (hstatus : s.status ≠ .running) : PlanSpec e h s (.idle (.ok (.inr s)))
  | error (error : CoreError) : PlanSpec e h s (.idle (.error error))
  | stop (s' : SessionState) (hstatus : s'.status ≠ .running) : PlanSpec e h s (.stop s')
  | goOn (s' : SessionState) (hless : e.roundsLeft s' < e.roundsLeft s)
      (hround : s.round ≤ s'.round)
      : PlanSpec e h s (.goOn s')
  | tool (mid s' : SessionState) (tool inputJson : String)
      (hless : e.roundsLeft s' < e.roundsLeft s) (hmid : e.roundsLeft mid ≤ e.roundsLeft s)
      (hround : s.round < s'.round)
      (hagain : h.planner.Stable → ∀ calls, e.plan h calls mid = .goOn s')
      : PlanSpec e h s
          { calls := [(s.round, tool, inputJson)], saves := [mid, s'], result := .ok (.inl s') }

theorem roundsLeft_lt {s s' : SessionState} (hrun : s.status = .running)
    (hpending : s'.pendingHitl = none) (hround : s'.round = s.round + 1)
    (hleft : s.pendingHitl.isSome ∨ s.round < e.maxRounds)
    : e.roundsLeft s' < e.roundsLeft s := by
  simp only [ReActEngine.roundsLeft, hrun, hpending, if_true, Option.isSome_none, Bool.toNat_false,
    hround]
  split
  . cases hleft with
    | inl hleft =>
      simp only [hleft, Bool.toNat_true]
      omega
    | inr hleft => omega
  . omega

theorem planReplay_spec (s : SessionState) (req : HitlRequest) (hrun : s.status = .running)
    (hpending : s.pendingHitl = some req)
    : PlanSpec e h s (ReActEngine.planReplay s req) := by
  unfold ReActEngine.planReplay
  cases s.hitlAnswer req.id with
  | some answer =>
    dsimp only
    apply PlanSpec.goOn
    . apply roundsLeft_lt hrun
      . rfl
      . simp
      . simp [hpending]
    . simp
  | none =>
    apply PlanSpec.stop
    simp

theorem planHuman_spec (s : SessionState) (request : HitlRequest) (hrun : s.status = .running)
    (hpending : s.pendingHitl = none) (hleft : s.round < e.maxRounds)
    : PlanSpec e h s (ReActEngine.planHuman s request) := by
  unfold ReActEngine.planHuman
  dsimp only
  rw [SessionState.pushUnique_hitlAnswer]
  cases s.hitlAnswer request.id with
  | some answer =>
    apply PlanSpec.goOn
    . apply roundsLeft_lt hrun
      . simpa using hpending
      . simp
      . simp [hleft]
    . simp
  | none =>
    apply PlanSpec.stop
    simp

theorem withObservation_round (s : SessionState) (tool : String) (out : String × Bool)
    : (e.withObservation s tool out).round = s.round := by
  unfold ReActEngine.withObservation
  split <;> simp

theorem withObservation_pendingHitl (s : SessionState) (tool : String) (out : String × Bool)
    : (e.withObservation s tool out).pendingHitl = s.pendingHitl := by
  unfold ReActEngine.withObservation
  split <;> simp

theorem planTool_again {s : SessionState} {tool inputJson : String} {out : String × Bool}
    (hline : ⟨s.round, .action, s!"{tool} {inputJson}"⟩ ∈ s.transcript)
    (hnew : s.completedCall s.round tool inputJson = none)
    (calls : List (Nat × String × String))
    : e.planTool h calls (s.withCall tool inputJson out) tool inputJson
        =
      .goOn
        { e.withObservation (s.withCall tool inputJson out) tool out with
          round := (e.withObservation (s.withCall tool inputJson out) tool out).round + 1 } := by
  have hpush : (s.withCall tool inputJson out).pushUnique
      ⟨s.round, .action, s!"{tool} {inputJson}"⟩ = s.withCall tool inputJson out := by
    apply SessionState.pushUnique_of_mem
    exact hline
  have hfound : (s.withCall tool inputJson out).completedCall s.round tool inputJson
      = some { round := s.round, tool, inputJson, outputJson := out.1, failed := out.2 } := by
    rw [SessionState.completedCall, SessionState.withCall, List.find?_append]
    rw [SessionState.completedCall] at hnew
    simp [hnew]
  have hround : (s.withCall tool inputJson out).round = s.round := rfl
  unfold ReActEngine.planTool
  simp only [hround, hpush, hfound]

theorem pushUnique_transcript (s : SessionState) (entry : TranscriptEntry)
    : (s.pushUnique entry).transcript = withLine s.transcript entry := by
  unfold SessionState.pushUnique withLine
  split <;> rfl

theorem plan_eq_planThink {s : SessionState} (hrun : s.status = .running)
    (hpending : s.pendingHitl = none) (hleft : s.round < e.maxRounds)
    (calls : List (Nat × String × String))
    : e.plan h calls s = e.planThink h calls s := by
  have hbudget : ¬ s.round ≥ e.maxRounds := by
    omega
  rw [ReActEngine.plan, if_pos hrun, ReActEngine.planRound, hpending]
  exact if_neg hbudget

theorem plan_again {s s₁ : SessionState} {tool inputJson : String} {out : String × Bool}
    (hs₁ : s.pushUnique ⟨s.round, .action, s!"{tool} {inputJson}"⟩ = s₁)
    (hrun : s.status = .running) (hpending : s.pendingHitl = none) (hleft : s.round < e.maxRounds)
    (haction : h.planner s.goal s.round s.transcript h.tools = .ok (.callTool tool inputJson))
    (hnew : s₁.completedCall s₁.round tool inputJson = none) (hstable : h.planner.Stable)
    (calls : List (Nat × String × String))
    : e.plan h calls (s₁.withCall tool inputJson out)
        =
      .goOn
        { e.withObservation (s₁.withCall tool inputJson out) tool out with
          round := (e.withObservation (s₁.withCall tool inputJson out) tool out).round + 1 } := by
  have hround : s₁.round = s.round := by
    simp [← hs₁]
  have hline : ⟨s₁.round, .action, s!"{tool} {inputJson}"⟩ ∈ s₁.transcript := by
    rw [hround, ← hs₁]
    apply SessionState.pushUnique_mem
  have hdecide : h.planner s₁.goal s₁.round s₁.transcript h.tools
      = .ok (.callTool tool inputJson) := by
    rw [hround, ← hs₁, pushUnique_transcript, SessionState.pushUnique_goal]
    apply hstable _ _ _ _ _ _ haction
  have hstatus : (s₁.withCall tool inputJson out).status = .running := by
    simp [← hs₁, SessionState.withCall, hrun]
  have hpending₁ : (s₁.withCall tool inputJson out).pendingHitl = none := by
    simp [← hs₁, SessionState.withCall, hpending]
  have hleft₁ : (s₁.withCall tool inputJson out).round < e.maxRounds := by
    simp only [SessionState.withCall, hround]
    omega
  have hthink : e.planThink h calls (s₁.withCall tool inputJson out)
      = e.planTool h calls (s₁.withCall tool inputJson out) tool inputJson := by
    unfold ReActEngine.planThink
    simp only [SessionState.withCall, hdecide]
  rw [plan_eq_planThink hstatus hpending₁ hleft₁, hthink, planTool_again hline hnew]

theorem planTool_spec (s : SessionState) (tool inputJson : String) (hrun : s.status = .running)
    (hpending : s.pendingHitl = none) (hleft : s.round < e.maxRounds)
    (haction : h.planner s.goal s.round s.transcript h.tools = .ok (.callTool tool inputJson))
    (calls : List (Nat × String × String))
    : PlanSpec e h s (e.planTool h calls s tool inputJson) := by
  unfold ReActEngine.planTool
  dsimp only
  generalize hs₁ : s.pushUnique ⟨s.round, .action, s!"{tool} {inputJson}"⟩ = s₁
  have hround : s₁.round = s.round := by
    simp [← hs₁]
  have hpending₁ : s₁.pendingHitl = none := by
    simp [← hs₁, hpending]
  cases hprior : s₁.completedCall s₁.round tool inputJson with
  | some prior =>
    apply PlanSpec.goOn
    . apply roundsLeft_lt hrun
      . simpa [withObservation_pendingHitl] using hpending₁
      . simp [withObservation_round, hround]
      . simp [hleft]
    . simp [withObservation_round, hround]
  | none =>
    dsimp only
    rw [hround]
    apply PlanSpec.tool
    . apply roundsLeft_lt hrun
      . simpa [withObservation_pendingHitl, SessionState.withCall] using hpending₁
      . simp [withObservation_round, SessionState.withCall, hround]
      . simp [hleft]
    . simp [ReActEngine.roundsLeft, SessionState.withCall, ← hs₁]
    . simp [withObservation_round, SessionState.withCall, hround]
    . apply plan_again hs₁ hrun hpending hleft haction hprior

theorem plan_spec (calls : List (Nat × String × String)) (s : SessionState)
    : PlanSpec e h s (e.plan h calls s) := by
  unfold ReActEngine.plan
  split
  . next hrun =>
    unfold ReActEngine.planRound
    split
    . next req hpending => apply planReplay_spec s req hrun hpending
    . next hpending =>
      split
      . apply PlanSpec.stop
        simp
      . next hbudget =>
        have hleft : s.round < e.maxRounds := by
          omega
        unfold ReActEngine.planThink
        split
        . apply PlanSpec.error
        . apply PlanSpec.goOn
          . apply roundsLeft_lt hrun
            . simpa using hpending
            . simp
            . simp [hleft]
          . simp
        . next haction => apply planTool_spec s _ _ hrun hpending hleft haction
        . apply planHuman_spec s _ hrun hpending hleft
  . next hrun => apply PlanSpec.idle hrun

end Spec

def ReActEngine.loop (e : ReActEngine) (fuel : Nat) (s : SessionState) : ReActProg SessionState :=
  iterate (e.loopBody { observer := false, control := false }) fuel (plainLocals s)

section Loop

variable {e : ReActEngine} {h : Host}

theorem complete_loop_succ (fuel : Nat) (s : SessionState) (d : Disk)
    : h.complete (e.loop (fuel + 1) s) d
        =
      match (e.plan h d.calls s).result with
      | .error error => ((e.plan h d.calls s).done d, some (.error error))
      | .ok (.inr s') => ((e.plan h d.calls s).done d, some (.ok s'))
      | .ok (.inl s') => h.complete (e.loop fuel s') ((e.plan h d.calls s).done d) := by
  have hbody : runUntil Disk.next h.answer (fun _ => false) 0 d
      (e.loopBody { observer := false, control := false } (plainLocals s))
      = ((e.plan h d.calls s).done d,
          some ((e.plan h d.calls s).result.map (Sum.map plainLocals id), 0)) := by
    apply runUntil_of_some (n := (e.plan h d.calls s).saves.length)
    rw [runUntil_loopBody, RoundPlan.outcome, if_neg (by omega)]
  rw [Host.complete, ReActEngine.loop, iterate, runUntil_bind, hbody]
  cases (e.plan h d.calls s).result with
  | error error => rfl
  | ok r =>
    cases r with
    | inl s' => rfl
    | inr s' => rfl

theorem crash_loop_succ (fuel : Nat) (s : SessionState) (d : Disk) (n : Nat)
    : h.crash (e.loop (fuel + 1) s) d n
        =
      if n < (e.plan h d.calls s).saves.length then
        { store := (e.plan h d.calls s).saves[n]?, calls := d.calls ++ (e.plan h d.calls s).calls }
      else
        match (e.plan h d.calls s).result with
        | .ok (.inl s') =>
          h.crash (e.loop fuel s') ((e.plan h d.calls s).done d)
            (n - (e.plan h d.calls s).saves.length)
        | _ => (e.plan h d.calls s).done d := by
  rw [Host.crash, ReActEngine.loop, iterate, runUntil_bind, runUntil_loopBody, RoundPlan.outcome]
  by_cases hn : n < (e.plan h d.calls s).saves.length
  . simp only [hn, if_true]
  . simp only [hn, if_false]
    cases (e.plan h d.calls s).result with
    | error error => rfl
    | ok r =>
      cases r with
      | inl s' => rfl
      | inr s' => rfl

theorem complete_loop_fuel (fuel fuel' : Nat) (s : SessionState) (d : Disk)
    (hfuel : e.roundsLeft s < fuel) (hfuel' : e.roundsLeft s < fuel')
    : h.complete (e.loop fuel s) d = h.complete (e.loop fuel' s) d ∧
        (h.complete (e.loop fuel s) d).2.isSome := by
  induction fuel generalizing fuel' s d with
  | zero => omega
  | succ fuel ih =>
    cases fuel' with
    | zero => omega
    | succ fuel' =>
      rw [complete_loop_succ, complete_loop_succ]
      have hspec := plan_spec (e := e) (h := h) d.calls s
      generalize e.plan h d.calls s = p at hspec ⊢
      cases hspec with
      | idle hstatus => simp [RoundPlan.idle]
      | error error => simp [RoundPlan.idle]
      | stop s' hstatus => simp [RoundPlan.stop]
      | goOn s' hless hround =>
        apply ih
        . omega
        . omega
      | tool mid s' tool inputJson hless hmid hround hagain =>
        apply ih
        . omega
        . omega

theorem complete_loop_idle (fuel : Nat) {s : SessionState} (hstatus : s.status ≠ .running) (d : Disk)
    : h.complete (e.loop (fuel + 1) s) d = (d, some (.ok s)) := by
  rw [complete_loop_succ, ReActEngine.plan, if_neg hstatus]
  simp [RoundPlan.idle, RoundPlan.done]

variable {sessionId goal : String} {projectId : Option String}

@[simp]
theorem start_some (s : SessionState) (calls : List (Nat × String × String))
    : Disk.start { store := some s, calls } sessionId goal projectId = s := by
  rfl

theorem complete_crash_loop (hstable : h.planner.Stable) (fuel fuel' : Nat) {s : SessionState}
    {d : Disk} (hstart : d.start sessionId goal projectId = s) (hfuel : e.roundsLeft s < fuel)
    (hfuel' : e.roundsLeft s < fuel') (n : Nat)
    : e.roundsLeft ((h.crash (e.loop fuel s) d n).start sessionId goal projectId)
          ≤ e.roundsLeft s ∧
        h.complete
            (e.loop fuel' ((h.crash (e.loop fuel s) d n).start sessionId goal projectId))
            (h.crash (e.loop fuel s) d n)
          = h.complete (e.loop fuel s) d := by
  induction fuel generalizing s d n with
  | zero => omega
  | succ fuel ih =>
    have hsame := (complete_loop_fuel (h := h) fuel' (fuel + 1) s d hfuel' hfuel).1
    have hrestart {s' : SessionState} (hless : e.roundsLeft s' < e.roundsLeft s) (d' : Disk)
        : e.roundsLeft s' ≤ e.roundsLeft s ∧
          h.complete (e.loop fuel' s') d' = h.complete (e.loop fuel s') d' := by
      have := (complete_loop_fuel (e := e) (h := h) fuel' fuel s' d' (by omega) (by omega)).1
      exact ⟨by omega, this⟩
    have hlater {s' : SessionState} (hless : e.roundsLeft s' < e.roundsLeft s) (d' : Disk)
        (hstart' : d'.start sessionId goal projectId = s') (n : Nat)
        : e.roundsLeft ((h.crash (e.loop fuel s') d' n).start sessionId goal projectId)
            ≤ e.roundsLeft s ∧
          h.complete
              (e.loop fuel' ((h.crash (e.loop fuel s') d' n).start sessionId goal projectId))
              (h.crash (e.loop fuel s') d' n)
            = h.complete (e.loop fuel s') d' := by
      have := ih hstart' (by omega) (by omega) n
      exact ⟨by omega, this.2⟩
    rw [crash_loop_succ]
    rw [complete_loop_succ] at hsame ⊢
    have hspec := plan_spec (e := e) (h := h) d.calls s
    generalize e.plan h d.calls s = p at hspec hsame ⊢
    cases hspec with
    | idle hstatus => simpa [RoundPlan.idle, RoundPlan.done, hstart] using hsame
    | error error => simpa [RoundPlan.idle, RoundPlan.done, hstart] using hsame
    | stop s' hstatus =>
      have hcrash : (if n < (RoundPlan.stop s').saves.length then
          { store := (RoundPlan.stop s').saves[n]?, calls := d.calls ++ (RoundPlan.stop s').calls }
          else (RoundPlan.stop s').done d) = { store := some s', calls := d.calls } := by
        cases n <;> simp [RoundPlan.stop, RoundPlan.done]
      have hzero : e.roundsLeft s' = 0 := by
        simp [ReActEngine.roundsLeft, hstatus]
      cases fuel' with
      | zero => omega
      | succ fuel' =>
        have := complete_loop_idle (e := e) (h := h) fuel' hstatus { store := some s', calls := d.calls }
        simp only [RoundPlan.stop] at hcrash ⊢
        rw [hcrash]
        simp [this, hzero, RoundPlan.done]
    | goOn s' hless hround =>
      cases n with
      | zero => simpa [RoundPlan.goOn, RoundPlan.done] using hrestart hless _
      | succ n => simpa [RoundPlan.goOn] using hlater hless ((RoundPlan.goOn s').done d) rfl n
    | tool mid s' tool inputJson hless hmid hround hagain =>
      cases n with
      | zero =>
        cases fuel' with
        | zero => omega
        | succ fuel' =>
          have := (complete_loop_fuel (e := e) (h := h) fuel' fuel s'
            { store := some s', calls := d.calls ++ [(s.round, tool, inputJson)] }
            (by omega) (by omega)).1
          simpa [complete_loop_succ, hagain hstable, RoundPlan.goOn, RoundPlan.done, hmid] using this
      | succ n =>
        cases n with
        | zero => simpa [RoundPlan.done] using hrestart hless _
        | succ n =>
          simpa [RoundPlan.done] using hlater hless
            { store := some s', calls := d.calls ++ [(s.round, tool, inputJson)] } rfl n

theorem complete_run (hdoom : e.doomCfg = none) (hcost : e.costBudget = none) (fuel : Nat) (d : Disk)
    : h.complete (e.run fuel sessionId goal projectId) d
        = h.complete (e.loop fuel (d.start sessionId goal projectId)) d := by
  have hinstruments : e.instruments (d.start sessionId goal projectId)
      = plainLocals (d.start sessionId goal projectId) := by
    simp [ReActEngine.instruments, plainLocals, hdoom, hcost]
  rw [ReActEngine.loop, ← hinstruments]
  rfl

theorem crash_run (hdoom : e.doomCfg = none) (hcost : e.costBudget = none) (fuel : Nat) (d : Disk)
    (n : Nat)
    : h.crash (e.run fuel sessionId goal projectId) d n
        = h.crash (e.loop fuel (d.start sessionId goal projectId)) d n := by
  have hinstruments : e.instruments (d.start sessionId goal projectId)
      = plainLocals (d.start sessionId goal projectId) := by
    simp [ReActEngine.instruments, plainLocals, hdoom, hcost]
  rw [ReActEngine.loop, ← hinstruments]
  rfl

theorem complete_crashes (hstable : h.planner.Stable) (hdoom : e.doomCfg = none)
    (hcost : e.costBudget = none) (fuel : Nat) (crashes : List Nat) (d : Disk)
    (hfuel : e.roundsLeft (d.start sessionId goal projectId) < fuel)
    : h.complete (e.run fuel sessionId goal projectId)
          (crashes.foldl (h.crash (e.run fuel sessionId goal projectId)) d)
        = h.complete (e.run fuel sessionId goal projectId) d := by
  induction crashes generalizing d with
  | nil => rfl
  | cons n crashes ih =>
    have hone := complete_crash_loop hstable fuel fuel rfl hfuel hfuel n
    rw [← crash_run hdoom hcost] at hone
    rw [List.foldl_cons, ih]
    . rw [complete_run hdoom hcost, hone.2, complete_run hdoom hcost]
    . omega

theorem calls_sorted (fuel : Nat) (s : SessionState) (d : Disk)
    : ∃ calls, (h.complete (e.loop fuel s) d).1.calls = d.calls ++ calls ∧
        calls.Pairwise (fun a b => a.1 < b.1) ∧ ∀ a ∈ calls, s.round ≤ a.1 := by
  induction fuel generalizing s d with
  | zero => exact ⟨[], by simp [Host.complete, ReActEngine.loop, iterate, runUntil], by simp⟩
  | succ fuel ih =>
    rw [complete_loop_succ]
    have hspec := plan_spec (e := e) (h := h) d.calls s
    generalize e.plan h d.calls s = p at hspec ⊢
    cases hspec with
    | idle hstatus => exact ⟨[], by simp [RoundPlan.idle, RoundPlan.done], by simp⟩
    | error error => exact ⟨[], by simp [RoundPlan.idle, RoundPlan.done], by simp⟩
    | stop s' hstatus => exact ⟨[], by simp [RoundPlan.stop, RoundPlan.done], by simp⟩
    | goOn s' hless hround =>
      rcases ih s' ((RoundPlan.goOn s').done d) with ⟨calls, heq, hsorted, hle⟩
      refine ⟨calls, ?_, hsorted, ?_⟩
      . simpa [RoundPlan.goOn, RoundPlan.done] using heq
      . intro a ha
        have := hle a ha
        omega
    | tool mid s' tool inputJson hless hmid hround hagain =>
      dsimp only
      rcases ih s' { store := some s', calls := d.calls ++ [(s.round, tool, inputJson)] }
        with ⟨calls, heq, hsorted, hle⟩
      refine ⟨(s.round, tool, inputJson) :: calls, ?_, ?_, ?_⟩
      . simpa [RoundPlan.done] using heq
      . rw [List.pairwise_cons]
        refine ⟨?_, hsorted⟩
        intro a ha
        have := hle a ha
        dsimp only
        omega
      . intro a ha
        rw [List.mem_cons] at ha
        cases ha with
        | inl ha => simp [ha]
        | inr ha =>
          have := hle a ha
          omega

theorem crashSafe_of_stable {planner : Planner} (hstable : planner.Stable) : CrashSafe planner := by
  intro e h sessionId goal projectId store crashes fuel hdoom hcost hplanner hfuel run alone
  rw [← hplanner] at hstable
  refine ⟨?_, ?_, complete_crashes hstable hdoom hcost fuel crashes _ hfuel⟩
  . simp only [alone, run]
    rw [complete_run hdoom hcost]
    apply (complete_loop_fuel fuel fuel _ _ hfuel hfuel).2
  . rcases calls_sorted (e := e) (h := h) fuel
      (Disk.start { store, calls := [] } sessionId goal projectId) { store, calls := [] }
      with ⟨calls, heq, hsorted, -⟩
    simp only [alone, run]
    rw [complete_run hdoom hcost, heq, List.nil_append]
    apply hsorted.imp
    rintro a b hlt rfl
    omega

end Loop

section Probe

variable (planner : Planner) (goal : String) (round : Nat) (transcript : List TranscriptEntry)
  (tools : List String)

def probeEngine : ReActEngine where
  maxRounds := round + 1
  doomCfg := none
  costBudget := none
  terminalTools := []
  supervisor := false

def probeHost : Host where
  planner
  tools
  tool _ _ _ := .ok ""

def probeState : SessionState :=
  { SessionState.new "" goal none with round, transcript }

variable {planner goal round transcript tools} {tool inputJson : String}

def probeMid (goal : String) (round : Nat) (transcript : List TranscriptEntry)
    (tool inputJson : String)
    : SessionState :=
  ((probeState goal round transcript).pushUnique
    ⟨round, .action, s!"{tool} {inputJson}"⟩).withCall tool inputJson ("", false)

theorem plan_probeState
    (haction : planner goal round transcript tools = .ok (.callTool tool inputJson))
    : ∃ s', s'.status = .running ∧ s'.pendingHitl = none ∧ s'.round = round + 1 ∧
        (probeEngine round).plan (probeHost planner tools) [] (probeState goal round transcript)
          = { calls := [(round, tool, inputJson)]
              saves := [probeMid goal round transcript tool inputJson, s']
              result := .ok (.inl s') } := by
  have hthink : (probeEngine round).planThink (probeHost planner tools) []
      (probeState goal round transcript)
      = (probeEngine round).planTool (probeHost planner tools) [] (probeState goal round transcript)
          tool inputJson := by
    unfold ReActEngine.planThink
    simp only [probeHost, probeState, SessionState.new, haction]
  have hnew : ((probeState goal round transcript).pushUnique
      ⟨round, .action, s!"{tool} {inputJson}"⟩).completedCall round tool inputJson = none := by
    simp [SessionState.completedCall, probeState, SessionState.new]
  rw [plan_eq_planThink rfl rfl (by simp [probeState, probeEngine]), hthink]
  unfold ReActEngine.planTool
  have hround : (probeState goal round transcript).round = round := rfl
  simp only [hround, SessionState.pushUnique_round, hnew]
  refine ⟨_, ?_, ?_, ?_, rfl⟩
  . simp [ReActEngine.withObservation, probeEngine, SessionState.withCall, probeState,
      SessionState.new]
  . simp [ReActEngine.withObservation, probeEngine, SessionState.withCall, probeState,
      SessionState.new]
  . simp [ReActEngine.withObservation, probeEngine, SessionState.withCall, probeState,
      SessionState.new]

theorem complete_probe
    (haction : planner goal round transcript tools = .ok (.callTool tool inputJson))
    : ∃ f, f.status = .failed ∧
        (probeHost planner tools).complete
            ((probeEngine round).loop 3 (probeState goal round transcript))
            { store := some (probeState goal round transcript), calls := [] }
          = ({ store := some f, calls := [(round, tool, inputJson)] }, some (.ok f)) := by
  rcases plan_probeState haction with ⟨s', hrun, hpending, hround, hplan⟩
  refine ⟨{ s'.pushUnique ⟨s'.round, .answer, "round budget exhausted"⟩ with status := .failed },
    rfl, ?_⟩
  rw [complete_loop_succ, hplan]
  simp only [RoundPlan.done, List.getLast?_cons_cons, List.getLast?_singleton, Option.some_or,
    List.nil_append]
  rw [complete_loop_succ, ReActEngine.plan, if_pos hrun, ReActEngine.planRound, hpending]
  simp [hround, probeEngine, RoundPlan.stop, RoundPlan.done]

theorem crash_probe
    (haction : planner goal round transcript tools = .ok (.callTool tool inputJson))
    : (probeHost planner tools).crash
          ((probeEngine round).loop 3 (probeState goal round transcript))
          { store := some (probeState goal round transcript), calls := [] } 0
        = { store := some (probeMid goal round transcript tool inputJson)
            calls := [(round, tool, inputJson)] } := by
  rcases plan_probeState haction with ⟨s', -, -, -, hplan⟩
  rw [crash_loop_succ, hplan]
  simp

theorem planTool_new {e : ReActEngine} {h : Host} {s : SessionState} {tool inputJson : String}
    (hnew : s.completedCall s.round tool inputJson = none) (calls : List (Nat × String × String))
    : ∃ mid s', e.planTool h calls s tool inputJson
        =
      { calls := [(s.round, tool, inputJson)], saves := [mid, s'], result := .ok (.inl s') } := by
  unfold ReActEngine.planTool
  simp only [SessionState.pushUnique_completedCall, SessionState.pushUnique_round, hnew]
  exact ⟨_, _, rfl⟩

theorem calls_length_le {e : ReActEngine} {h : Host} (fuel : Nat) (s : SessionState) (d : Disk)
    : d.calls.length ≤ (h.complete (e.loop fuel s) d).1.calls.length := by
  rcases calls_sorted (e := e) (h := h) fuel s d with ⟨calls, heq, -⟩
  simp [heq]

theorem decide_of_complete_probe {f : SessionState} (hf : f.status = .failed)
    (hcomplete : (probeHost planner tools).complete
        ((probeEngine round).loop 3 (probeMid goal round transcript tool inputJson))
        { store := some (probeMid goal round transcript tool inputJson)
          calls := [(round, tool, inputJson)] }
      = ({ store := some f, calls := [(round, tool, inputJson)] }, some (.ok f)))
    : planner goal round (withLine transcript ⟨round, .action, s!"{tool} {inputJson}"⟩) tools
        = .ok (.callTool tool inputJson) := by
  have hmid : (probeMid goal round transcript tool inputJson).transcript
      = withLine transcript ⟨round, .action, s!"{tool} {inputJson}"⟩ := by
    apply pushUnique_transcript
  have hgoal : (probeMid goal round transcript tool inputJson).goal = goal := by
    simp [probeMid, SessionState.withCall, probeState, SessionState.new]
  have hround : (probeMid goal round transcript tool inputJson).round = round := by
    simp [probeMid, SessionState.withCall, probeState]
  have hplan : (probeEngine round).plan (probeHost planner tools) [(round, tool, inputJson)]
      (probeMid goal round transcript tool inputJson)
      = (probeEngine round).planThink (probeHost planner tools) [(round, tool, inputJson)]
          (probeMid goal round transcript tool inputJson) := by
    apply plan_eq_planThink
    . simp [probeMid, SessionState.withCall, probeState, SessionState.new]
    . simp [probeMid, SessionState.withCall, probeState, SessionState.new]
    . simp [hround, probeEngine]
  rw [complete_loop_succ, hplan] at hcomplete
  unfold ReActEngine.planThink at hcomplete
  simp only [hgoal, hround, hmid, probeHost] at hcomplete
  cases haction : planner goal round (withLine transcript ⟨round, .action, s!"{tool} {inputJson}"⟩)
      tools with
  | error error => simp [haction, RoundPlan.idle] at hcomplete
  | ok action =>
    rw [haction] at hcomplete
    cases action with
    | finish answer =>
      simp only [RoundPlan.goOn] at hcomplete
      rw [complete_loop_idle _ (by simp)] at hcomplete
      simp only [Prod.mk.injEq, Option.some.injEq, Except.ok.injEq] at hcomplete
      simp [← hcomplete.2] at hf
    | callTool tool' inputJson' =>
      by_cases hsame : tool' = tool ∧ inputJson' = inputJson
      . rw [hsame.1, hsame.2]
      . have hnew : (probeMid goal round transcript tool inputJson).completedCall
            (probeMid goal round transcript tool inputJson).round tool' inputJson' = none := by
          simp [probeMid, SessionState.withCall, SessionState.completedCall, probeState,
            SessionState.new]
          grind
        rcases planTool_new (e := probeEngine round) (h := probeHost planner tools) hnew
          [(round, tool, inputJson)] with ⟨mid, s', hplan⟩
        rw [probeHost] at hplan
        simp only [hplan] at hcomplete
        have hlength := calls_length_le (e := probeEngine round) (h := probeHost planner tools) 2 s'
          (RoundPlan.done
            { calls := [((probeMid goal round transcript tool inputJson).round, tool', inputJson')]
              saves := [mid, s'], result := .ok (.inl s') }
            { store := some (probeMid goal round transcript tool inputJson)
              calls := [(round, tool, inputJson)] })
        rw [probeHost, hcomplete] at hlength
        simp [RoundPlan.done] at hlength
    | requestHuman request =>
      have hnone : (probeMid goal round transcript tool inputJson).hitlAnswer request.id = none := by
        simp [probeMid, SessionState.withCall, SessionState.hitlAnswer, probeState, SessionState.new,
          SessionState.pushUnique_eq_pushed, SessionState.pushed]
      simp only [ReActEngine.planHuman, SessionState.pushUnique_hitlAnswer, hnone, RoundPlan.stop,
        Prod.mk.injEq, Option.some.injEq, Except.ok.injEq] at hcomplete
      simp [← hcomplete.2] at hf

theorem stable_of_crashSafe (hsafe : CrashSafe planner) : planner.Stable := by
  intro goal round transcript tools tool inputJson haction
  rcases complete_probe haction with ⟨f, hf, hcomplete⟩
  have h := hsafe (probeEngine round) (probeHost planner tools) "" goal none
    (some (probeState goal round transcript)) [0] 3 rfl rfl rfl
    (by simp [ReActEngine.roundsLeft, probeEngine, probeState, SessionState.new])
  apply decide_of_complete_probe hf
  have heq := h.2.2
  simp only [List.foldl_cons, List.foldl_nil] at heq
  rw [complete_run rfl rfl, complete_run rfl rfl, crash_run rfl rfl, start_some, crash_probe haction,
    start_some, hcomplete] at heq
  exact heq

theorem crashSafe_iff_stable (planner : Planner) : CrashSafe planner ↔ planner.Stable := by
  constructor
  . apply stable_of_crashSafe
  . apply crashSafe_of_stable

end Probe

def reportPlanner : Planner :=
  fun _ _ transcript _ =>
    match transcript.getLast? with
    | none => .ok (.callTool "fetch" "report")
    | some entry => .ok (.finish entry.content)

theorem crash_changes_report : ¬ CrashSafe reportPlanner := by
  intro hsafe
  have h := hsafe (probeEngine 7) (probeHost reportPlanner []) "s" "g" none none [0] 10 rfl rfl rfl
    (by decide)
  revert h
  decide

end Agent
end MemStack
