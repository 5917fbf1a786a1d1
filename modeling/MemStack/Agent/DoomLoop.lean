import MemStack.Agent.Types

/-!
This module contains the robustness instruments of the agent loop (`agent/doom_loop.rs`): the sliding
window detector of repeated actions, the cost tracker and the verdict of the supervisor. The counters
are natural numbers, a run makes far fewer rounds and calls than a `u64` can count.
-/

namespace MemStack
namespace Agent

structure DoomLoopDetector where
  window : Nat
  threshold : Nat
  recent : List String
  deriving DecidableEq, Repr

namespace DoomLoopDetector

def new (window threshold : Nat) : DoomLoopDetector :=
  let threshold := max threshold 1
  let window := max window threshold
  { window, threshold, recent := [] }

def observe (d : DoomLoopDetector) (key : String) : DoomLoopDetector × Bool :=
  let recent := d.recent ++ [key]
  -- `pop_front` until the window fits
  let recent := recent.drop (recent.length - d.window)
  ({ d with recent }, recent.countP (· == key) ≥ d.threshold)

end DoomLoopDetector

structure CostBudget where
  maxRounds : Option Nat
  maxToolCalls : Option Nat
  maxTokens : Option Nat
  deriving DecidableEq, Repr

structure CostTracker where
  budget : CostBudget
  rounds : Nat
  toolCalls : Nat
  tokens : Nat
  deriving DecidableEq, Repr

namespace CostTracker

def new (budget : CostBudget) : CostTracker :=
  { budget, rounds := 0, toolCalls := 0, tokens := 0 }

def seedRounds (c : CostTracker) (rounds : Nat) : CostTracker :=
  { c with rounds }

def recordRound (c : CostTracker) : CostTracker :=
  { c with rounds := c.rounds + 1 }

def recordToolCall (c : CostTracker) : CostTracker :=
  { c with toolCalls := c.toolCalls + 1 }

def overBudget (c : CostTracker) : Bool :=
  c.budget.maxRounds.any (c.rounds ≥ ·) || c.budget.maxToolCalls.any (c.toolCalls ≥ ·) ||
    c.budget.maxTokens.any (c.tokens ≥ ·)

end CostTracker

inductive TriggerReason where
  | doomLoop
  | costCeiling
  deriving DecidableEq, Repr

def TriggerReason.debug : TriggerReason → String
  | .doomLoop => "DoomLoop"
  | .costCeiling => "CostCeiling"

inductive Health where
  | healthy
  | stalled
  | looping
  | goalDrift
  deriving DecidableEq, Repr

def Health.debug : Health → String
  | .healthy => "Healthy"
  | .stalled => "Stalled"
  | .looping => "Looping"
  | .goalDrift => "GoalDrift"

inductive NextAction where
  | continue
  | reassign
  | escalate
  deriving DecidableEq, Repr

def NextAction.debug : NextAction → String
  | .continue => "Continue"
  | .reassign => "Reassign"
  | .escalate => "Escalate"

structure SupervisorVerdict where
  health : Health
  next : NextAction
  rationale : String
  deriving DecidableEq, Repr

end Agent
end MemStack
