import MemStack.Agent.Hitl.LocalResume

/-!
This module contains the listen loop of one consumer (`local_resume_consumer.py`) over the streams of its
projects, and just when a reclaim pass recovers the requests that it finds stale. Times are milliseconds, and
a pass and what it does about each entry happen at one time. The tasks that resume agents, and other
processes, change the database and the streams between two rounds of the loop.
-/

namespace MemStack
namespace Agent
namespace Hitl

def reclaimIntervalMs : Int := 15000

def reclaimIdleMs : Int := 30000

def defaultBatchSize : Nat := 10

structure StoredRequest where
  status : HITLRequestStatus
  processingHeartbeatAt : Option Int
  processingStartedAt : Option Int
  processingOwner : Option String
  hitlType : Option String
  deriving DecidableEq

namespace StoredRequest

variable (request : StoredRequest)

def getProcessingLeaseTime : Option Int :=
  request.processingHeartbeatAt.or request.processingStartedAt

def isProcessingLeaseStale (before : Int) : Bool :=
  match request.getProcessingLeaseTime with
  | none => false
  | some leaseTime => leaseTime < before

def revertToAnswered (leaseBefore : Int) (leaseOwner : Option String) : Option StoredRequest :=
  if request.status = .processing ∧
      (leaseOwner = none ∨ request.processingOwner = none ∨ request.processingOwner = leaseOwner) ∧
      (request.getProcessingLeaseTime = none ∨ request.isProcessingLeaseStale leaseBefore = true) then
    some { request with
      status := .answered, processingHeartbeatAt := none, processingStartedAt := none, processingOwner := none }
  else none

structure Stale (now : Int) : Prop where
  processing : request.status = .processing
  stale : request.isProcessingLeaseStale (now - staleProcessingIdleMs) = true

end StoredRequest

structure PendingEntry where
  messageId : Nat
  requestId : Option String
  deliveredAt : Int
  deriving DecidableEq

def PendingEntry.idleMs (now : Int) (entry : PendingEntry) : Int :=
  now - entry.deliveredAt

structure StartedResume where
  requestId : String
  usesPersistedResponse : Bool

structure ListenLoop where
  requests : String → Option StoredRequest
  streams : List (List PendingEntry)
  lastReclaimAt : Int := 0
  resumes : List StartedResume := []

inductive LoopRequest where
  -- One round of the loop, with the messages that it reads and their streams.
  | iterate (now : Int) (messages : List (Nat × PendingEntry))
  | others (requests : String → Option StoredRequest) (streams : List (List PendingEntry))

namespace ListenLoop

variable (s : ListenLoop)

def resume (request : StoredRequest) (requestId : String) (usesPersistedResponse : Bool) : ListenLoop × Bool :=
  match request.hitlType with
  | none => (s, true)
  | some _ => ({ s with resumes := s.resumes ++ [⟨requestId, usesPersistedResponse⟩] }, false)

def handleMessage (now : Int) (entry : PendingEntry) (pendingIdleMs : Option Int) : ListenLoop × Bool :=
  match entry.requestId with
  | none => (s, true)
  | some requestId =>
    match s.requests requestId with
    | none => (s, true)
    | some request =>
      let leaseBefore := now - staleProcessingIdleMs
      match handleRequestStatus request.status pendingIdleMs (request.isProcessingLeaseStale leaseBefore) with
      | .drop => (s, true)
      | .leave => (s, false)
      | .resume => s.resume request requestId false
      | .recover =>
        match request.revertToAnswered leaseBefore request.processingOwner with
        | none => (s, false)
        | some request =>
          { s with requests := Function.update s.requests requestId (some request) }.resume request requestId true

-- What `xclaim` claims of the first pending entries.
def claimable (now : Int) (stream : List PendingEntry) : List PendingEntry :=
  (stream.take defaultBatchSize).filter fun entry => reclaimIdleMs ≤ entry.idleMs now

def handleClaimed (now : Int) (s : ListenLoop) : List PendingEntry → ListenLoop × List PendingEntry
  | [] => (s, [])
  | entry :: entries =>
    let (s, acked) := s.handleMessage now entry (some (entry.idleMs now))
    let (s, others) := handleClaimed now s entries
    (s, if acked then entry :: others else others)

def afterClaim (now : Int) (claimed acked stream : List PendingEntry) : List PendingEntry :=
  (stream.filter (· ∉ acked)).map fun entry => if entry ∈ claimed then { entry with deliveredAt := now } else entry

def reclaimPendingMessages (now : Int) (s : ListenLoop)
    : List (List PendingEntry) → ListenLoop × List (List PendingEntry) × List PendingEntry
  | [] => (s, [], [])
  | stream :: streams =>
    let claimed := claimable now stream
    let (s, acked) := s.handleClaimed now claimed
    let (s, rest, others) := reclaimPendingMessages now s streams
    (s, afterClaim now claimed acked stream :: rest, claimed ++ others)

def reclaimDue (now : Int) : Bool :=
  s.lastReclaimAt = 0 ∨ reclaimIntervalMs ≤ now - s.lastReclaimAt

def readMessages (now : Int) (s : ListenLoop) : List (Nat × PendingEntry) → ListenLoop
  | [] => s
  | (stream, entry) :: messages =>
    let (s, acked) := s.handleMessage now entry none
    let s := if acked then s
      else { s with streams := s.streams.modify stream (· ++ [{ entry with deliveredAt := now }]) }
    readMessages now s messages

def iterate (now : Int) (messages : List (Nat × PendingEntry)) : ListenLoop × List PendingEntry :=
  if s.reclaimDue now then
    let (s', streams, claimed) := s.reclaimPendingMessages now s.streams
    ({ s' with streams, lastReclaimAt := now }.readMessages now messages, claimed)
  else (s.readMessages now messages, [])

def step (s : ListenLoop) : LoopRequest → ListenLoop × List PendingEntry
  | .iterate now messages => s.iterate now messages
  | .others requests streams => ({ s with requests, streams }, [])

abbrev Entry := Machine.Entry ListenLoop LoopRequest (List PendingEntry)

def Entry.Recovers (e : Entry) : Prop :=
  ∀ now messages, e.request = .iterate now messages →
    ∀ entry ∈ e.reply, ∀ requestId, entry.requestId = some requestId →
      ∀ request, e.after.requests requestId = some request → ¬request.Stale now

def claimed (now : Int) (streams : List (List PendingEntry)) : List PendingEntry :=
  (streams.map (claimable now)).flatten

-- For each stale request with an entry that is claimed, one such entry was not delivered or claimed by anyone
-- for as long as the lease must be old.
def LongIdle (s : ListenLoop) : LoopRequest → Prop
  | .iterate now _ =>
    s.reclaimDue now = true → ∀ entry ∈ claimed now s.streams, ∀ requestId, entry.requestId = some requestId →
      ∀ request, s.requests requestId = some request → request.Stale now →
        ∃ other ∈ claimed now s.streams, other.requestId = some requestId ∧ staleProcessingIdleMs ≤ other.idleMs now
  | .others _ _ => True

def IsStale (now : Int) (requests : String → Option StoredRequest) (requestId : String) : Prop :=
  ∃ request, requests requestId = some request ∧ request.Stale now

variable {s : ListenLoop} {now : Int} {entry : PendingEntry} {requestId : String}

theorem resume_requests (request : StoredRequest) (id : String) (usesPersistedResponse : Bool)
    : (s.resume request id usesPersistedResponse).1.requests = s.requests := by
  unfold resume
  split <;> rfl

theorem not_stale_of_revert {request reverted : StoredRequest} {leaseBefore : Int} {leaseOwner : Option String}
    (h : request.revertToAnswered leaseBefore leaseOwner = some reverted)
    : ¬reverted.Stale now := by
  unfold StoredRequest.revertToAnswered at h
  split at h
  . cases h
    intro hstale
    cases hstale.processing
  . cases h

theorem revert_of_stale {request : StoredRequest} (h : request.Stale now)
    : ∃ reverted, request.revertToAnswered (now - staleProcessingIdleMs) request.processingOwner = some reverted := by
  unfold StoredRequest.revertToAnswered
  rw [if_pos ⟨h.processing, Or.inr (Or.inr rfl), Or.inr h.stale⟩]
  exact ⟨_, rfl⟩

theorem decision_eq_recover {request : StoredRequest} {pendingIdleMs : Option Int}
    (h : handleRequestStatus request.status pendingIdleMs
      (request.isProcessingLeaseStale (now - staleProcessingIdleMs)) = .recover)
    : request.Stale now ∧ ∃ idle, pendingIdleMs = some idle ∧ staleProcessingIdleMs ≤ idle := by
  unfold handleRequestStatus at h
  cases hstatus : request.status with
  | processing =>
    rw [hstatus] at h
    cases pendingIdleMs with
    | none => cases h
    | some idle =>
      dsimp only at h
      split at h
      . cases h
      . next hlong =>
        push Not at hlong
        exact ⟨⟨hstatus, by simpa using hlong.2⟩, idle, rfl, hlong.1⟩
  | pending =>
    rw [hstatus] at h
    cases h
  | answered =>
    rw [hstatus] at h
    cases h
  | completed =>
    rw [hstatus] at h
    cases h
  | timeout =>
    rw [hstatus] at h
    cases h
  | cancelled =>
    rw [hstatus] at h
    cases h

theorem decision_of_stale {request : StoredRequest} (h : request.Stale now) (idle : Int)
    : handleRequestStatus request.status (some idle) (request.isProcessingLeaseStale (now - staleProcessingIdleMs))
        = if staleProcessingIdleMs ≤ idle then .recover else .leave := by
  unfold handleRequestStatus
  rw [h.processing, h.stale]
  by_cases hlong : staleProcessingIdleMs ≤ idle
  . rw [if_pos hlong]
    simp [hlong]
  . rw [if_neg hlong]
    simp [hlong]

theorem handleMessage_of_none {pendingIdleMs : Option Int} (hid : entry.requestId = none)
    : s.handleMessage now entry pendingIdleMs = (s, true) := by
  unfold handleMessage
  rw [hid]

theorem handleMessage_of_missing {pendingIdleMs : Option Int} (hid : entry.requestId = some requestId)
    (hrequest : s.requests requestId = none)
    : s.handleMessage now entry pendingIdleMs = (s, true) := by
  unfold handleMessage
  rw [hid]
  dsimp only
  rw [hrequest]

theorem handleMessage_of_recover {pendingIdleMs : Option Int} {request reverted : StoredRequest}
    (hid : entry.requestId = some requestId) (hrequest : s.requests requestId = some request)
    (hdecision : handleRequestStatus request.status pendingIdleMs
      (request.isProcessingLeaseStale (now - staleProcessingIdleMs)) = .recover)
    (hreverted : request.revertToAnswered (now - staleProcessingIdleMs) request.processingOwner = some reverted)
    : (s.handleMessage now entry pendingIdleMs).1.requests
        = Function.update s.requests requestId (some reverted) := by
  unfold handleMessage
  rw [hid]
  dsimp only
  rw [hrequest]
  dsimp only
  rw [hdecision]
  dsimp only
  rw [hreverted]
  exact resume_requests reverted requestId true

theorem handleMessage_of_other {pendingIdleMs : Option Int} {request : StoredRequest}
    (hid : entry.requestId = some requestId) (hrequest : s.requests requestId = some request)
    (hdecision : handleRequestStatus request.status pendingIdleMs
      (request.isProcessingLeaseStale (now - staleProcessingIdleMs)) ≠ .recover)
    : (s.handleMessage now entry pendingIdleMs).1.requests = s.requests := by
  unfold handleMessage
  rw [hid]
  dsimp only
  rw [hrequest]
  dsimp only
  cases hcase : handleRequestStatus request.status pendingIdleMs
      (request.isProcessingLeaseStale (now - staleProcessingIdleMs)) with
  | drop => rfl
  | leave => rfl
  | resume => exact resume_requests request requestId false
  | recover => exact absurd hcase hdecision

theorem handleMessage_stale_iff (s : ListenLoop) (now : Int) (entry : PendingEntry) (idle : Int) (requestId : String)
    : IsStale now (s.handleMessage now entry (some idle)).1.requests requestId ↔
        IsStale now s.requests requestId ∧ ¬(entry.requestId = some requestId ∧ staleProcessingIdleMs ≤ idle) := by
  cases hid : entry.requestId with
  | none =>
    rw [handleMessage_of_none hid]
    simp
  | some id =>
    cases hrequest : s.requests id with
    | none =>
      rw [handleMessage_of_missing hid hrequest]
      constructor
      . intro hstale
        refine ⟨hstale, ?_⟩
        rintro ⟨hsame, _⟩
        cases hsame
        rcases hstale with ⟨request, hget, _⟩
        rw [hrequest] at hget
        cases hget
      . intro hstale
        exact hstale.1
    | some request =>
      by_cases hrecover : handleRequestStatus request.status (some idle)
          (request.isProcessingLeaseStale (now - staleProcessingIdleMs)) = .recover
      . rcases decision_eq_recover hrecover with ⟨hstale, _, heq, hlong⟩
        cases heq
        rcases revert_of_stale hstale with ⟨reverted, hreverted⟩
        rw [handleMessage_of_recover hid hrequest hrecover hreverted]
        by_cases hsame : requestId = id
        . rw [hsame]
          constructor
          . rintro ⟨other, hget, hother⟩
            rw [Function.update_self] at hget
            cases hget
            exact absurd hother (not_stale_of_revert hreverted)
          . intro hboth
            exact absurd ⟨rfl, hlong⟩ hboth.2
        . have hne : id ≠ requestId := fun heq => hsame heq.symm
          simp [IsStale, Function.update_of_ne hsame, hne]
      . rw [handleMessage_of_other hid hrequest hrecover]
        constructor
        . intro hother
          refine ⟨hother, ?_⟩
          rintro ⟨hsame, hlong⟩
          cases hsame
          rcases hother with ⟨other, hget, hother⟩
          rw [hrequest] at hget
          cases hget
          rw [decision_of_stale hother, if_pos hlong] at hrecover
          exact hrecover rfl
        . intro hother
          exact hother.1

theorem handleMessage_new_stale_iff (s : ListenLoop) (now : Int) (entry : PendingEntry) (requestId : String)
    : IsStale now (s.handleMessage now entry none).1.requests requestId ↔ IsStale now s.requests requestId := by
  cases hid : entry.requestId with
  | none => rw [handleMessage_of_none hid]
  | some id =>
    cases hrequest : s.requests id with
    | none => rw [handleMessage_of_missing hid hrequest]
    | some request =>
      have hother : handleRequestStatus request.status none
          (request.isProcessingLeaseStale (now - staleProcessingIdleMs)) ≠ .recover := by
        intro hrecover
        rcases decision_eq_recover hrecover with ⟨_, _, heq, _⟩
        cases heq
      rw [handleMessage_of_other hid hrequest hother]

theorem handleClaimed_stale_iff (now : Int) (entries : List PendingEntry) (s : ListenLoop) (requestId : String)
    : IsStale now (s.handleClaimed now entries).1.requests requestId ↔
        IsStale now s.requests requestId ∧
          ¬∃ entry ∈ entries, entry.requestId = some requestId ∧ staleProcessingIdleMs ≤ entry.idleMs now := by
  induction entries generalizing s with
  | nil => simp [handleClaimed]
  | cons entry entries ih =>
    unfold handleClaimed
    dsimp only
    rw [ih, handleMessage_stale_iff, List.exists_mem_cons_iff, not_or, and_assoc]

theorem claimed_cons (now : Int) (stream : List PendingEntry) (streams : List (List PendingEntry))
    : claimed now (stream :: streams) = claimable now stream ++ claimed now streams := by
  unfold claimed
  rw [List.map_cons, List.flatten_cons]

theorem reclaimPendingMessages_claimed (now : Int) (streams : List (List PendingEntry)) (s : ListenLoop)
    : (s.reclaimPendingMessages now streams).2.2 = claimed now streams := by
  induction streams generalizing s with
  | nil => rfl
  | cons stream streams ih =>
    unfold reclaimPendingMessages
    dsimp only
    rw [ih, claimed_cons]

theorem reclaimPendingMessages_stale_iff (now : Int) (streams : List (List PendingEntry)) (s : ListenLoop)
    (requestId : String)
    : IsStale now (s.reclaimPendingMessages now streams).1.requests requestId ↔
        IsStale now s.requests requestId ∧
          ¬∃ entry ∈ claimed now streams,
            entry.requestId = some requestId ∧ staleProcessingIdleMs ≤ entry.idleMs now := by
  induction streams generalizing s with
  | nil => simp [reclaimPendingMessages, claimed]
  | cons stream streams ih =>
    unfold reclaimPendingMessages
    dsimp only
    rw [ih, handleClaimed_stale_iff, claimed_cons]
    simp only [List.mem_append, or_and_right, exists_or]
    rw [not_or, and_assoc]

theorem readMessages_stale_iff (now : Int) (messages : List (Nat × PendingEntry)) (s : ListenLoop)
    (requestId : String)
    : IsStale now (s.readMessages now messages).requests requestId ↔ IsStale now s.requests requestId := by
  induction messages generalizing s with
  | nil => rfl
  | cons message messages ih =>
    unfold readMessages
    dsimp only
    rw [ih]
    split
    . exact handleMessage_new_stale_iff s now message.2 requestId
    . exact handleMessage_new_stale_iff s now message.2 requestId

theorem iterate_of_due {messages : List (Nat × PendingEntry)} (hdue : s.reclaimDue now = true)
    : (s.iterate now messages).2 = claimed now s.streams ∧
        ∀ requestId, IsStale now (s.iterate now messages).1.requests requestId ↔
          IsStale now s.requests requestId ∧
            ¬∃ entry ∈ claimed now s.streams,
              entry.requestId = some requestId ∧ staleProcessingIdleMs ≤ entry.idleMs now := by
  unfold iterate
  rw [if_pos hdue]
  refine ⟨reclaimPendingMessages_claimed now s.streams s, fun requestId => ?_⟩
  dsimp only
  rw [readMessages_stale_iff]
  exact reclaimPendingMessages_stale_iff now s.streams s requestId

theorem iterate_of_not_due {messages : List (Nat × PendingEntry)} (hdue : s.reclaimDue now = false)
    : (s.iterate now messages).2 = [] := by
  unfold iterate
  rw [if_neg (by simp [hdue])]

theorem recovers_iff (s : ListenLoop) (request : LoopRequest)
    : Entry.Recovers ⟨s, request, (s.step request).2, (s.step request).1⟩ ↔ s.LongIdle request := by
  cases request with
  | others requests streams =>
    constructor
    . intro _
      trivial
    . intro _ now messages heq
      cases heq
  | iterate now messages =>
    by_cases hdue : s.reclaimDue now = true
    . rcases @iterate_of_due s now messages hdue with ⟨hclaimed, hstale⟩
      constructor
      . intro hrecovers _ entry hentry requestId hid request hrequest hrequestStale
        by_contra hnone
        have hkept := (hstale requestId).mpr ⟨⟨request, hrequest, hrequestStale⟩, hnone⟩
        rcases hkept with ⟨after, hafter, hafterStale⟩
        have hmem : entry ∈ (s.iterate now messages).2 := by
          rw [hclaimed]
          exact hentry
        exact hrecovers now messages rfl entry hmem requestId hid after hafter hafterStale
      . intro hlong now' messages' heq entry hentry requestId hid after hafter hafterStale
        cases heq
        have hmem : entry ∈ claimed now s.streams := by
          rw [← hclaimed]
          exact hentry
        rcases (hstale requestId).mp ⟨after, hafter, hafterStale⟩ with ⟨⟨request, hrequest, hrequestStale⟩, hnone⟩
        exact hnone (hlong hdue entry hmem requestId hid request hrequest hrequestStale)
    . have hnot : s.reclaimDue now = false := by simpa using hdue
      constructor
      . intro _ htrue
        exact absurd htrue hdue
      . intro _ now' messages' heq entry hentry
        cases heq
        have hnil : entry ∈ (s.iterate now messages).2 := hentry
        rw [iterate_of_not_due hnot] at hnil
        cases hnil

/--
Claiming resets the idle time that recovery asks for, so a pass recovers a stale request just when one of its
entries was left alone for all of that time.
-/
theorem recovers_run_iff (s : ListenLoop) (requests : List LoopRequest)
    : (∀ e ∈ Machine.transcript step s requests, Entry.Recovers e) ↔
        ∀ e ∈ Machine.transcript step s requests, LongIdle e.before e.request := by
  apply @Machine.forall_transcript_iff _ _ _ step LongIdle (fun _ => True) Entry.Recovers _ s trivial requests
  intro s request _
  refine ⟨recovers_iff s request, ?_⟩
  intro _
  trivial

def crashed : ListenLoop where
  requests id := if id = "request" then
      some ⟨.processing, some 0, some 0, some "worker", some "clarification"⟩
    else none
  streams := [[⟨1, some "request", 0⟩]]

def everyThirtySeconds : List LoopRequest :=
  (List.range 11).map fun (round : Nat) => .iterate (30000 * (round + 1)) []

/--
The consumer claims the entry every thirty seconds, and leaves the request behind each time.
-/
theorem reclaimed_forever
    : ¬∀ e ∈ Machine.transcript step crashed everyThirtySeconds, Entry.Recovers e := by
  intro h
  rw [everyThirtySeconds, List.range_succ, List.map_append, List.map_singleton] at h
  rw [Machine.transcript_concat, List.forall_mem_append] at h
  have hrecovers := h.2 _ List.mem_cons_self
  apply hrecovers 330000 [] rfl ⟨1, some "request", 300000⟩ (by decide +kernel) "request" rfl
    ⟨.processing, some 0, some 0, some "worker", some "clarification"⟩ (by decide +kernel)
  exact ⟨rfl, by decide⟩

end ListenLoop

end Hitl
end Agent
end MemStack
