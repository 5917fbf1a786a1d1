import MemStack.Port.Timestamp
import MemStack.Util.Machine
import MemStack.Util.Table

/-!
This module contains the four writers of a task session attempt (`workspace_repo/task_attempts.rs`). Each
statement is one step: recording a candidate output is a read and a later write, with any other statements
in between.
-/

namespace MemStack
namespace Workspace

inductive AttemptStatus where
  | pending
  | running
  | awaitingLeaderAdjudication
  | accepted
  | rejected
  | blocked
  | cancelled
  | other (text : String)
  deriving DecidableEq, Repr

structure WorkspaceTaskSessionAttemptRecord where
  id : String
  status : AttemptStatus
  conversationId : Option String
  candidateSummary : Option String
  candidateArtifactsJson : List String
  candidateVerificationsJson : List String
  leaderFeedback : Option String
  adjudicationReason : Option String
  updatedAt : Option Timestamp
  completedAt : Option Timestamp
  deriving DecidableEq, Repr

structure CandidateOutput where
  attemptId : String
  summary : Option String
  artifactsJson : List String
  verificationsJson : List String
  conversationId : Option String
  updatedAt : Timestamp
  deriving DecidableEq, Repr

namespace WorkspaceTaskSessionAttemptRecord

variable (row : WorkspaceTaskSessionAttemptRecord)

def settled : Bool :=
  match row.status with
  | .accepted => true
  | .rejected => true
  | .blocked => true
  | .cancelled => true
  | _ => false

def markedRunning (now : Timestamp) : WorkspaceTaskSessionAttemptRecord :=
  { row with status := .running, updatedAt := some now }

def boundTo (conversationId : String) (now : Timestamp) : WorkspaceTaskSessionAttemptRecord :=
  { row with status := .running, conversationId := some conversationId, updatedAt := some now }

def finished (status : AttemptStatus) (leaderFeedback adjudicationReason : Option String) (completedAt : Timestamp)
    : WorkspaceTaskSessionAttemptRecord :=
  { row with
    status, leaderFeedback, adjudicationReason, completedAt := some completedAt, updatedAt := some completedAt }

def withOutput (output : CandidateOutput) : WorkspaceTaskSessionAttemptRecord :=
  { row with
    status := .awaitingLeaderAdjudication
    conversationId := output.conversationId <|> row.conversationId
    candidateSummary := output.summary
    candidateArtifactsJson := output.artifactsJson
    candidateVerificationsJson := output.verificationsJson
    updatedAt := some output.updatedAt }

end WorkspaceTaskSessionAttemptRecord

structure TaskAttempts where
  attempts : List WorkspaceTaskSessionAttemptRecord
  -- The outputs whose calls have read an attempt that was not settled, and have not written yet.
  writing : List CandidateOutput := []

inductive AttemptRequest where
  | markTaskSessionAttemptRunning (attemptId : String) (now : Timestamp)
  | bindTaskSessionAttemptConversation (attemptId conversationId : String) (now : Timestamp)
  | finishTaskSessionAttempt (attemptId : String) (status : AttemptStatus)
      (leaderFeedback adjudicationReason : Option String) (completedAt : Timestamp)
  | readForOutput (output : CandidateOutput)
  | writeOutput (n : Nat)

namespace TaskAttempts

variable (s : TaskAttempts)

-- `UPDATE .. WHERE id = $1 RETURNING ..`.
def update (attemptId : String) (set : WorkspaceTaskSessionAttemptRecord → WorkspaceTaskSessionAttemptRecord)
    : TaskAttempts × Option WorkspaceTaskSessionAttemptRecord :=
  ({ s with attempts := Table.update (·.id == attemptId) set s.attempts },
    (Table.updated (·.id == attemptId) set s.attempts).head?)

def getTaskSessionAttempt (attemptId : String) : Option WorkspaceTaskSessionAttemptRecord :=
  s.attempts.find? (·.id == attemptId)

def readForOutput (output : CandidateOutput) : TaskAttempts × Option WorkspaceTaskSessionAttemptRecord :=
  match s.getTaskSessionAttempt output.attemptId with
  | none => (s, none)
  | some existing =>
    if existing.settled then (s, some existing)
    else ({ s with writing := s.writing ++ [output] }, none)

def writeOutput (n : Nat) : TaskAttempts × Option WorkspaceTaskSessionAttemptRecord :=
  match s.writing[n]? with
  | none => (s, none)
  | some output =>
    { s with writing := s.writing.eraseIdx n }.update output.attemptId (·.withOutput output)

def step : AttemptRequest → TaskAttempts × Option WorkspaceTaskSessionAttemptRecord
  | .markTaskSessionAttemptRunning attemptId now => s.update attemptId (·.markedRunning now)
  | .bindTaskSessionAttemptConversation attemptId conversationId now =>
    s.update attemptId (·.boundTo conversationId now)
  | .finishTaskSessionAttempt attemptId status leaderFeedback adjudicationReason completedAt =>
    s.update attemptId (·.finished status leaderFeedback adjudicationReason completedAt)
  | .readForOutput output => s.readForOutput output
  | .writeOutput n => s.writeOutput n

end TaskAttempts

structure WorkspaceTaskSessionAttemptRecord.SameResult (row row' : WorkspaceTaskSessionAttemptRecord) : Prop where
  status : row'.status = row.status
  leaderFeedback : row'.leaderFeedback = row.leaderFeedback
  candidateSummary : row'.candidateSummary = row.candidateSummary
  candidateArtifactsJson : row'.candidateArtifactsJson = row.candidateArtifactsJson
  candidateVerificationsJson : row'.candidateVerificationsJson = row.candidateVerificationsJson

namespace TaskAttempts

open WorkspaceTaskSessionAttemptRecord

abbrev Entry := Machine.Entry TaskAttempts AttemptRequest (Option WorkspaceTaskSessionAttemptRecord)

def Entry.Settled (e : Entry) : Prop :=
  List.Forall₂ (fun row row' => row.settled = true → row.SameResult row') e.before.attempts e.after.attempts

def SparesRow (s : TaskAttempts) (row : WorkspaceTaskSessionAttemptRecord) : AttemptRequest → Prop
  | .markTaskSessionAttemptRunning attemptId _ => row.id ≠ attemptId
  | .bindTaskSessionAttemptConversation attemptId _ _ => row.id ≠ attemptId
  | .finishTaskSessionAttempt attemptId status leaderFeedback _ _ =>
    row.id = attemptId → status = row.status ∧ leaderFeedback = row.leaderFeedback
  | .readForOutput _ => True
  | .writeOutput n => ∀ output ∈ s.writing[n]?, row.id ≠ output.attemptId

def Spares (s : TaskAttempts) (request : AttemptRequest) : Prop :=
  ∀ row ∈ s.attempts, row.settled = true → s.SparesRow row request

variable {row : WorkspaceTaskSessionAttemptRecord} {s : TaskAttempts}

theorem SameResult.refl (row : WorkspaceTaskSessionAttemptRecord) : row.SameResult row :=
  ⟨rfl, rfl, rfl, rfl, rfl⟩

theorem ne_of_settled (h : row.settled = true)
    : row.status ≠ .running ∧ row.status ≠ .awaitingLeaderAdjudication := by
  unfold settled at h
  constructor
  . intro hstatus
    rw [hstatus] at h
    cases h
  . intro hstatus
    rw [hstatus] at h
    cases h

theorem update_settled_iff (attemptId : String)
    (set : WorkspaceTaskSessionAttemptRecord → WorkspaceTaskSessionAttemptRecord)
    : List.Forall₂ (fun row row' => row.settled = true → row.SameResult row') s.attempts
        (s.update attemptId set).1.attempts
        ↔ ∀ row ∈ s.attempts, row.settled = true → row.id = attemptId → row.SameResult (set row) := by
  unfold update Table.update
  rw [List.forall₂_map_right_iff, List.forall₂_same]
  apply forall₂_congr
  intro row _
  apply imp_congr_right
  intro _
  by_cases hid : row.id = attemptId
  . simp [hid]
  . simp [hid, SameResult.refl]

theorem not_sameResult_of_status {row' : WorkspaceTaskSessionAttemptRecord} (hstatus : row'.status ≠ row.status)
    : ¬row.SameResult row' := by
  intro h
  exact hstatus h.status

theorem sameResult_finished_iff {status : AttemptStatus} {leaderFeedback adjudicationReason : Option String}
    {completedAt : Timestamp}
    : row.SameResult (row.finished status leaderFeedback adjudicationReason completedAt) ↔
        status = row.status ∧ leaderFeedback = row.leaderFeedback := by
  constructor
  . intro h
    exact ⟨h.status, h.leaderFeedback⟩
  . intro h
    exact ⟨h.1, h.2, rfl, rfl, rfl⟩

theorem readForOutput_attempts (output : CandidateOutput) : (s.readForOutput output).1.attempts = s.attempts := by
  unfold readForOutput
  split
  . rfl
  . split <;> rfl

theorem settled_of_same {rows : List WorkspaceTaskSessionAttemptRecord}
    : List.Forall₂ (fun row row' => row.settled = true → row.SameResult row') rows rows := by
  rw [List.forall₂_same]
  intro row _ _
  apply SameResult.refl

theorem update_settled_iff_of_status {attemptId : String}
    {set : WorkspaceTaskSessionAttemptRecord → WorkspaceTaskSessionAttemptRecord}
    (hset : ∀ row, row.settled = true → (set row).status ≠ row.status)
    : List.Forall₂ (fun row row' => row.settled = true → row.SameResult row') s.attempts
        (s.update attemptId set).1.attempts
        ↔ ∀ row ∈ s.attempts, row.settled = true → row.id ≠ attemptId := by
  rw [update_settled_iff]
  apply forall₂_congr
  intro row _
  apply imp_congr_right
  intro hsettled
  apply imp_congr_right
  intro _
  rw [iff_false]
  apply not_sameResult_of_status
  apply hset row hsettled

theorem step_settled_iff (s : TaskAttempts) (request : AttemptRequest)
    : Entry.Settled (Machine.entry step s request) ↔ s.Spares request := by
  show List.Forall₂ _ s.attempts (s.step request).1.attempts ↔ _
  cases request with
  | markTaskSessionAttemptRunning attemptId now =>
    apply update_settled_iff_of_status
    intro row hsettled
    exact (ne_of_settled hsettled).1.symm
  | bindTaskSessionAttemptConversation attemptId conversationId now =>
    apply update_settled_iff_of_status
    intro row hsettled
    exact (ne_of_settled hsettled).1.symm
  | finishTaskSessionAttempt attemptId status leaderFeedback adjudicationReason completedAt =>
    rw [step, update_settled_iff]
    apply forall₂_congr
    intro row _
    apply imp_congr_right
    intro _
    apply imp_congr_right
    intro _
    exact sameResult_finished_iff
  | readForOutput output =>
    rw [step, readForOutput_attempts]
    constructor
    . intro _ row _ _
      trivial
    . intro _
      apply settled_of_same
  | writeOutput n =>
    rw [step]
    unfold writeOutput
    cases hwriting : s.writing[n]? with
    | none =>
      constructor
      . intro _ row _ _ output houtput
        rw [hwriting] at houtput
        cases houtput
      . intro _
        apply settled_of_same
    | some output =>
      dsimp only
      rw [@update_settled_iff_of_status { s with writing := s.writing.eraseIdx n } output.attemptId
        (·.withOutput output) (fun row hsettled => (ne_of_settled hsettled).2.symm)]
      apply forall₂_congr
      intro row _
      apply imp_congr_right
      intro _
      simp [SparesRow, hwriting]

/--
In any order of the statements, settled attempts keep their results just when no late statement meets one.
-/
theorem settled_run_iff (s : TaskAttempts) (requests : List AttemptRequest)
    : (∀ e ∈ Machine.transcript step s requests, Entry.Settled e) ↔
        ∀ e ∈ Machine.transcript step s requests, e.before.Spares e.request := by
  apply @Machine.forall_transcript_iff _ _ _ step Spares (fun _ => True) Entry.Settled
  . intro s request _
    refine ⟨step_settled_iff s request, ?_⟩
    intro _
    trivial
  . trivial

/--
A worker's output and the leader's adjudication cross: the output is read before and written after.
-/
theorem late_output_reopens
    : ∃ row : WorkspaceTaskSessionAttemptRecord, ∃ requests : List AttemptRequest,
        ¬∀ e ∈ Machine.transcript step { attempts := [row] } requests, Entry.Settled e := by
  refine ⟨⟨"a", .running, none, none, [], [], none, none, none, none⟩,
    [.readForOutput ⟨"a", some "late", [], [], none, 1⟩, .finishTaskSessionAttempt "a" .accepted none none 2,
      .writeOutput 0], ?_⟩
  intro h
  have hlast := h _ (by
    rw [Machine.transcript, Machine.transcript, Machine.transcript]
    apply List.mem_cons_of_mem
    apply List.mem_cons_of_mem
    apply List.mem_cons_self)
  unfold Entry.Settled at hlast
  have hkept := (List.forall₂_cons.mp hlast).1 rfl
  exact absurd hkept.status (by decide)

end TaskAttempts

end Workspace
end MemStack
