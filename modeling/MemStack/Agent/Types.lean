import MemStack.Util.Text
import MemStack.Port.CoreError

/-!
This module contains the domain types of the agent loop (`agent/types.rs`): the actions of the
planner, the transcript and the session state, which is the unit that is checkpointed.
-/

namespace MemStack
namespace Agent

inductive HitlKind where
  | clarification
  | decision
  | envVar
  | permission
  | a2uiAction
  deriving DecidableEq, Repr

def HitlKind.debug : HitlKind → String
  | .clarification => "Clarification"
  | .decision => "Decision"
  | .envVar => "EnvVar"
  | .permission => "Permission"
  | .a2uiAction => "A2uiAction"

structure HitlRequest where
  id : String
  kind : HitlKind
  prompt : String
  deriving DecidableEq, Repr

structure HitlResponse where
  id : String
  answer : String
  deriving DecidableEq, Repr

inductive AgentAction where
  | callTool (tool inputJson : String)
  | requestHuman (request : HitlRequest)
  | finish (answer : String)
  deriving DecidableEq, Repr

inductive Role where
  | thought
  | action
  | observation
  | human
  | answer
  deriving DecidableEq, Repr

structure TranscriptEntry where
  round : Nat
  role : Role
  content : String
  deriving DecidableEq, Repr

structure CompletedCall where
  round : Nat
  tool : String
  inputJson : String
  outputJson : String
  failed : Bool
  deriving DecidableEq, Repr

inductive SessionStatus where
  | running
  | awaitingInput
  | paused
  | finished
  | failed
  | cancelled
  deriving DecidableEq, Repr

def SessionStatus.debug : SessionStatus → String
  | .running => "Running"
  | .awaitingInput => "AwaitingInput"
  | .paused => "Paused"
  | .finished => "Finished"
  | .failed => "Failed"
  | .cancelled => "Cancelled"

structure SessionState where
  sessionId : String
  goal : String
  projectId : Option String
  round : Nat
  transcript : List TranscriptEntry
  completedToolCalls : List CompletedCall
  pendingHitl : Option HitlRequest
  hitlResponses : List HitlResponse
  appliedSteeringIds : List String
  answer : Option String
  status : SessionStatus
  deriving DecidableEq, Repr

namespace SessionState

def new (sessionId goal : String) (projectId : Option String) : SessionState where
  sessionId
  goal
  projectId
  round := 0
  transcript := []
  completedToolCalls := []
  pendingHitl := none
  hitlResponses := []
  appliedSteeringIds := []
  answer := none
  status := .running

def pushUnique (state : SessionState) (entry : TranscriptEntry) : SessionState :=
  if entry ∈ state.transcript then
    state
  else
    { state with transcript := state.transcript ++ [entry] }

def completedCall (state : SessionState) (round : Nat) (tool inputJson : String)
    : Option CompletedCall :=
  state.completedToolCalls.find? fun c =>
    c.round == round && c.tool == tool && c.inputJson == inputJson

def hitlAnswer (state : SessionState) (id : String) : Option String :=
  (state.hitlResponses.find? fun r => r.id == id).map HitlResponse.answer

def recordResponse (id answer : String) : List HitlResponse → List HitlResponse
  | [] => [⟨id, answer⟩]
  | r :: rs => if r.id = id then ⟨r.id, answer⟩ :: rs else r :: recordResponse id answer rs

def recordHitlAnswer (state : SessionState) (id answer : String) : SessionState :=
  { state with hitlResponses := recordResponse id answer state.hitlResponses }

variable (c : SessionState) (entry : TranscriptEntry)

def pushed (lines : List TranscriptEntry) : SessionState :=
  { c with transcript := c.transcript ++ lines }

theorem pushUnique_eq_pushed
    : c.pushUnique entry = c.pushed (if entry ∈ c.transcript then [] else [entry]) := by
  unfold pushUnique pushed
  split <;> simp

@[simp]
theorem pushed_pushed (lines lines' : List TranscriptEntry)
    : (c.pushed lines).pushed lines' = c.pushed (lines ++ lines') := by
  simp [pushed]

@[simp]
theorem pushed_nil : c.pushed [] = c := by
  simp [pushed]

theorem pushed_pushUnique (lines : List TranscriptEntry)
    : ∃ lines', (c.pushed lines).pushUnique entry = c.pushed lines' := by
  rw [pushUnique_eq_pushed, pushed_pushed]
  exact ⟨_, rfl⟩

@[simp]
theorem pushed_round (lines : List TranscriptEntry) : (c.pushed lines).round = c.round := by
  rfl

@[simp]
theorem pushed_status (lines : List TranscriptEntry) : (c.pushed lines).status = c.status := by
  rfl

@[simp]
theorem pushed_pendingHitl (lines : List TranscriptEntry)
    : (c.pushed lines).pendingHitl = c.pendingHitl := by
  rfl

@[simp]
theorem pushed_hitlAnswer (lines : List TranscriptEntry) (id : String)
    : (c.pushed lines).hitlAnswer id = c.hitlAnswer id := by
  rfl

@[simp]
theorem pushUnique_round : (c.pushUnique entry).round = c.round := by
  rw [pushUnique_eq_pushed]
  rfl

@[simp]
theorem pushUnique_status : (c.pushUnique entry).status = c.status := by
  rw [pushUnique_eq_pushed]
  rfl

@[simp]
theorem pushUnique_appliedSteeringIds
    : (c.pushUnique entry).appliedSteeringIds = c.appliedSteeringIds := by
  rw [pushUnique_eq_pushed]
  rfl

@[simp]
theorem pushUnique_completedCall (round : Nat) (tool inputJson : String)
    : (c.pushUnique entry).completedCall round tool inputJson
        =
      c.completedCall round tool inputJson := by
  rw [pushUnique_eq_pushed]
  rfl

@[simp]
theorem pushUnique_hitlAnswer (id : String)
    : (c.pushUnique entry).hitlAnswer id = c.hitlAnswer id := by
  rw [pushUnique_eq_pushed]
  rfl

@[simp]
theorem pushUnique_pendingHitl : (c.pushUnique entry).pendingHitl = c.pendingHitl := by
  rw [pushUnique_eq_pushed]
  rfl

@[simp]
theorem pushUnique_goal : (c.pushUnique entry).goal = c.goal := by
  rw [pushUnique_eq_pushed]
  rfl

@[simp]
theorem pushUnique_completedToolCalls
    : (c.pushUnique entry).completedToolCalls = c.completedToolCalls := by
  rw [pushUnique_eq_pushed]
  rfl

@[simp]
theorem pushUnique_mem : entry ∈ (c.pushUnique entry).transcript := by
  unfold pushUnique
  split
  . assumption
  . simp

theorem pushUnique_of_mem {c : SessionState} {entry : TranscriptEntry} (h : entry ∈ c.transcript)
    : c.pushUnique entry = c := by
  simp [pushUnique, h]

end SessionState

end Agent
end MemStack
