import MemStack.Util.Machine
import MemStack.Util.Lists

/-!
This module contains a terminal hub (`terminal_v2/hub.rs`): the pump that records output, and the clients that
attach to it. A step goes from one await to the next. Lemmas about its replay buffer and the frames of its clients
follow.
-/

namespace MemStack
namespace Server

structure ReplayEntry where
  sequence : Nat
  data : String
  deriving DecidableEq, Repr

def replayBufferBytes : Nat := 512 * 1024

def maxSequence : Nat := 2 ^ 64 - 1

inductive HubEvent where
  | output (entry : ReplayEntry)
  | lost (code : String)
  deriving DecidableEq, Repr

structure ReplayWindow where
  entries : List ReplayEntry
  oldestSequence : Nat
  latestSequence : Nat
  deriving DecidableEq, Repr

structure ReplayGap where
  afterSequence : Nat
  oldestSequence : Nat
  latestSequence : Nat
  deriving DecidableEq, Repr

inductive Frame where
  | connected (resumed : Bool)
  | ack (afterSequence oldestSequence latestSequence : Nat)
  | output (entry : ReplayEntry)
  | outputGap (gap : ReplayGap)
  | lost (code : String)
  | pong
  | frameTooLarge
  | inputOverload
  | close (code : Nat) (reason : String)
  -- The socket has not taken a frame.
  | failed
  deriving DecidableEq, Repr

inductive ClientPlace where
  -- It is subscribed and waits for the lock of the replay buffer.
  | subscribed
  | connecting (replay : Except ReplayGap ReplayWindow)
  | acknowledging (replay : ReplayWindow)
  | replaying (entries : List ReplayEntry)
  | live
  -- It has lagged behind and waits for the lock of the replay buffer.
  | lagged
  | detached

structure HubClient where
  afterSequence : Nat
  lastSequence : Nat
  -- The events that it has received or never will receive.
  position : Nat
  place : ClientPlace := .subscribed
  frames : List Frame := []

inductive Recording where
  | none
  -- The number is drawn, and the replay buffer is awaited.
  | numbered (entry : ReplayEntry)
  | buffered (entry : ReplayEntry)
  deriving DecidableEq, Repr

structure TerminalHub where
  sequence : Nat := 0
  replay : List ReplayEntry := []
  replayBytes : Nat := 0
  -- All events that were ever sent.
  events : List HubEvent := []
  alive : Bool := true
  cancellation : Option String := none
  recording : Recording := .none
  -- All that was ever recorded.
  recorded : List ReplayEntry := []
  clients : List HubClient := []

inductive Incoming where
  | input
  | ping
  | tooLarge
  | inputClosed
  | inputOverload
  | other
  | close
  deriving DecidableEq, Repr

inductive HubRequest where
  | record (data : String)
  | buffer
  | send
  | markLost (code : String)
  | attach (afterSequence : Nat)
  | replayAfter (client : Nat) (ok : Bool)
  -- The client's next frame. `ok` says whether the socket takes it.
  | proceed (client : Nat) (ok : Bool)
  | receive (client : Nat) (ok : Bool)
  | cancelled (client : Nat) (ok : Bool)
  | incoming (client : Nat) (incoming : Incoming) (ok : Bool)
  deriving Repr

namespace HubClient

variable (c : HubClient)

def send (frame : Frame) (ok : Bool) : HubClient :=
  { c with frames := c.frames ++ [if ok then frame else .failed] }

def moveTo (place : ClientPlace) : HubClient :=
  { c with place }

def sendTerminalLost (code : String) (ok : Bool) : HubClient :=
  if ok then (c.send (.lost code) true).send (.close 1012 code) true else c.send (.lost code) false

def sendGap (gap : ReplayGap) (reason : String) (ok : Bool) : HubClient :=
  (c.send (.outputGap gap) ok).send (.close 1013 reason) ok

def proceed (ok : Bool) : HubClient :=
  match c.place with
  | .connecting replay =>
    let c := c.send (.connected (c.afterSequence > 0)) ok
    if ok then
      match replay with
      | .ok replay => c.moveTo (.acknowledging replay)
      | .error gap => (c.sendGap gap "Terminal output retention gap" ok).moveTo .detached
    else c.moveTo .detached
  | .acknowledging replay =>
    let c := c.send (.ack c.afterSequence replay.oldestSequence replay.latestSequence) ok
    if ok then c.moveTo (.replaying replay.entries) else c.moveTo .detached
  | .replaying [] => c.moveTo .live
  | .replaying (entry :: entries) =>
    let c := { c with lastSequence := entry.sequence }.send (.output entry) ok
    -- A failure only ends the replay.
    if ok then c.moveTo (.replaying entries) else c.moveTo .live
  | _ => c

def receiveEvent (event : HubEvent) (ok : Bool) : HubClient :=
  let c := { c with position := c.position + 1 }
  match event with
  | .output entry =>
    if entry.sequence > c.lastSequence then
      let c := { c with lastSequence := entry.sequence }.send (.output entry) ok
      if ok then c else c.moveTo .detached
    else c
  | .lost code => (c.sendTerminalLost code ok).moveTo .detached

def receiveIncoming (incoming : Incoming) (ok : Bool) : HubClient :=
  match incoming with
  | .input => c
  | .ping =>
    let c := c.send .pong ok
    if ok then c else c.moveTo .detached
  | .tooLarge => ((c.send .frameTooLarge ok).send (.close 1009 "Terminal input frame too large") ok).moveTo .detached
  | .inputClosed => (c.send (.lost "terminal_session_lost") ok).moveTo .detached
  | .inputOverload => ((c.send .inputOverload ok).send (.close 1013 "Terminal input overload") ok).moveTo .detached
  | .other => c
  | .close => c.moveTo .detached

end HubClient

def trim (limit : Nat) : List ReplayEntry → Nat → List ReplayEntry × Nat
  | [], bytes => ([], bytes)
  | entry :: replay, bytes =>
    if bytes > limit then trim limit replay (bytes - entry.data.utf8ByteSize) else (entry :: replay, bytes)

namespace TerminalHub

variable (s : TerminalHub)

def markLost (code : String) : TerminalHub :=
  if s.alive then { s with alive := false, events := s.events ++ [.lost code], cancellation := some code } else s

-- `record_output` up to the lock of the replay buffer.
def record (data : String) : TerminalHub :=
  if s.sequence = maxSequence then s.markLost "terminal_output_gap"
  else
    let entry := { sequence := s.sequence + 1, data }
    { s with sequence := s.sequence + 1, recording := .numbered entry, recorded := s.recorded ++ [entry] }

def buffer (entry : ReplayEntry) : TerminalHub :=
  let (replay, replayBytes) :=
    trim replayBufferBytes (s.replay ++ [entry]) (s.replayBytes + entry.data.utf8ByteSize)
  { s with replay, replayBytes, recording := .buffered entry }

def replayAfter (afterSequence : Nat) : Except ReplayGap ReplayWindow :=
  let latestSequence := s.sequence
  -- The sum does not go over the last number.
  let oldestSequence := (s.replay.head?.map (·.sequence)).getD (min (latestSequence + 1) maxSequence)
  let earliestValidCursor := oldestSequence - 1
  if afterSequence > latestSequence ∨ afterSequence < earliestValidCursor then
    .error { afterSequence, oldestSequence, latestSequence }
  else
    .ok { entries := s.replay.filter (·.sequence > afterSequence), oldestSequence, latestSequence }

def setClient (client : Nat) (c : HubClient) : TerminalHub :=
  { s with clients := s.clients.set client c }

-- The steps of a client. The broadcast keeps the last `capacity` events.
def clientStep (capacity : Nat) (c : HubClient) : HubRequest → HubClient
  | .replayAfter _ ok =>
    match c.place with
    | .subscribed =>
      match s.cancellation with
      | some code => (c.sendTerminalLost code ok).moveTo .detached
      | none => c.moveTo (.connecting (s.replayAfter c.afterSequence))
    | .lagged =>
      let gap := match s.replayAfter c.lastSequence with
        | .error gap => gap
        | .ok _ => { afterSequence := c.lastSequence, oldestSequence := s.sequence, latestSequence := s.sequence }
      (c.sendGap gap "Terminal output gap" ok).moveTo .detached
    | _ => c
  | .proceed _ ok => c.proceed ok
  | .receive _ ok =>
    match c.place with
    | .live =>
      match s.events[c.position]? with
      | none => c
      | some event =>
        if s.events.length - c.position > capacity then c.moveTo .lagged else c.receiveEvent event ok
    | _ => c
  | .cancelled _ ok =>
    match c.place, s.cancellation with
    | .live, some code => (c.sendTerminalLost code ok).moveTo .detached
    | _, _ => c
  | .incoming _ incoming ok =>
    match c.place with
    | .live => c.receiveIncoming incoming ok
    | _ => c
  | _ => c

def toClient (capacity client : Nat) (request : HubRequest) : TerminalHub :=
  match s.clients[client]? with
  | none => s
  | some c => s.setClient client (s.clientStep capacity c request)

def step (capacity : Nat) (s : TerminalHub) : HubRequest → TerminalHub × Unit
  | .record data =>
    match s.recording with
    | .none => (s.record data, ())
    | _ => (s, ())
  | .buffer =>
    match s.recording with
    | .numbered entry => (s.buffer entry, ())
    | _ => (s, ())
  | .send =>
    match s.recording with
    | .buffered entry => ({ s with events := s.events ++ [.output entry], recording := .none }, ())
    | _ => (s, ())
  | .markLost code => (s.markLost code, ())
  | .attach afterSequence =>
    ({ s with
        clients := s.clients ++ [{ afterSequence, lastSequence := afterSequence, position := s.events.length }] },
      ())
  | .replayAfter client ok => (s.toClient capacity client (.replayAfter client ok), ())
  | .proceed client ok => (s.toClient capacity client (.proceed client ok), ())
  | .receive client ok => (s.toClient capacity client (.receive client ok), ())
  | .cancelled client ok => (s.toClient capacity client (.cancelled client ok), ())
  | .incoming client incoming ok => (s.toClient capacity client (.incoming client incoming ok), ())

end TerminalHub

section Numbered

-- Entries with the numbers `first`, `first + 1`, ...
def Numbered (first : Nat) (entries : List ReplayEntry) : Prop :=
  entries.map (·.sequence) = List.range' first entries.length

variable {first : Nat} {entries entries' : List ReplayEntry} {entry : ReplayEntry}

theorem numbered_nil (first : Nat) : Numbered first [] :=
  rfl

theorem numbered_cons : Numbered first (entry :: entries) ↔ entry.sequence = first ∧ Numbered (first + 1) entries := by
  simp [Numbered, List.range'_succ]

theorem numbered_append : Numbered first (entries ++ entries') ↔
    Numbered first entries ∧ Numbered (first + entries.length) entries' := by
  induction entries generalizing first with
  | nil => simp [numbered_nil]
  | cons entry entries ih =>
    rw [List.cons_append, numbered_cons, numbered_cons, ih, List.length_cons, and_assoc]
    rw [show first + 1 + entries.length = first + (entries.length + 1) by omega]

theorem Numbered.drop (h : Numbered first entries) {n : Nat} (hn : n ≤ entries.length)
    : Numbered (first + n) (entries.drop n) := by
  rw [← List.take_append_drop n entries, numbered_append, List.length_take, min_eq_left hn] at h
  exact h.2

theorem Numbered.sequence_eq (h : Numbered first entries) {n : Nat} (hget : entries[n]? = some entry)
    : entry.sequence = first + n := by
  have hmap : (entries.map (·.sequence))[n]? = some entry.sequence := by
    rw [List.getElem?_map, hget]
    rfl
  have hlength := (List.getElem?_eq_some_iff.mp hget).1
  rw [h, List.getElem?_range' hlength] at hmap
  injection hmap with hmap
  omega

theorem Numbered.eq_mapIdx (h : Numbered first entries)
    : entries = (entries.map (·.data)).mapIdx fun i data => { sequence := first + i, data } := by
  apply List.ext_getElem?
  intro n
  rw [List.getElem?_mapIdx, List.getElem?_map]
  cases hget : entries[n]? with
  | none => rfl
  | some entry =>
    rw [Option.map_some, Option.map_some, ← h.sequence_eq hget]

theorem Numbered.filter_eq (h : Numbered first entries) (n : Nat)
    : entries.filter (·.sequence > n) = entries.drop (n + 1 - first) := by
  induction entries generalizing first with
  | nil => simp
  | cons entry entries ih =>
    rw [numbered_cons] at h
    by_cases hlt : n < first
    . rw [List.filter_cons_of_pos (by simpa [h.1] using hlt), ih h.2]
      rw [show n + 1 - (first + 1) = 0 by omega, show n + 1 - first = 0 by omega]
      rfl
    . rw [List.filter_cons_of_neg (by simpa [h.1] using hlt), ih h.2]
      rw [show n + 1 - first = (n + 1 - (first + 1)) + 1 by omega, List.drop_succ_cons]

end Numbered

section Trim

def replaySize (replay : List ReplayEntry) : Nat :=
  (replay.map (·.data.utf8ByteSize)).sum

theorem replaySize_concat (replay : List ReplayEntry) (entry : ReplayEntry)
    : replaySize (replay ++ [entry]) = replaySize replay + entry.data.utf8ByteSize := by
  simp [replaySize]

theorem trim_spec (limit : Nat) (replay : List ReplayEntry)
    : ∃ n ≤ replay.length, trim limit replay (replaySize replay) = (replay.drop n, replaySize (replay.drop n)) ∧
        replaySize (replay.drop n) ≤ limit := by
  induction replay with
  | nil => exact ⟨0, le_rfl, rfl, Nat.zero_le _⟩
  | cons entry replay ih =>
    unfold trim
    split
    . rcases ih with ⟨n, hn, htrim, hle⟩
      refine ⟨n + 1, Nat.succ_le_succ hn, ?_, hle⟩
      have hsize : replaySize (entry :: replay) - entry.data.utf8ByteSize = replaySize replay := by
        simp [replaySize]
      rw [hsize, htrim]
      rfl
    . next hfits => exact ⟨0, Nat.zero_le _, rfl, not_lt.mp hfits⟩

end Trim

section Frames

def Frame.ends : Frame → Bool
  | .outputGap _ | .lost _ | .close _ _ | .failed => true
  | _ => false

def Frame.hubEntry : Frame → Option ReplayEntry
  | .output entry => some entry
  | _ => none

def HubEvent.hubEntry : HubEvent → Option ReplayEntry
  | .output entry => some entry
  | .lost _ => none

namespace HubClient

def stopped (c : HubClient) : Bool :=
  c.frames.any Frame.ends

def outputs (c : HubClient) : List ReplayEntry :=
  (c.frames.takeWhile (!·.ends)).filterMap Frame.hubEntry

variable {c c' : HubClient}

theorem stopped_of_frames {more : List Frame} (h : c'.frames = c.frames ++ more) (hstopped : c.stopped = true)
    : c'.stopped = true ∧ c'.outputs = c.outputs := by
  unfold stopped outputs at *
  rw [h, List.any_append, hstopped]
  refine ⟨rfl, ?_⟩
  rcases List.any_eq_true.mp hstopped with ⟨frame, hframe, hends⟩
  rw [List.takeWhile_append, if_neg]
  intro hlength
  have hall := List.takeWhile_eq_self_iff.mp (List.IsPrefix.eq_of_length (List.takeWhile_prefix _) hlength)
  have := hall frame hframe
  rw [hends] at this
  cases this

theorem outputs_frames {more : List Frame} (h : c'.frames = c.frames ++ more) (hstopped : c.stopped = false)
    : c'.outputs = c.outputs ++ (more.takeWhile (!·.ends)).filterMap Frame.hubEntry := by
  unfold stopped outputs at *
  have hall : ∀ frame ∈ c.frames, (!frame.ends) = true := by
    intro frame hframe
    have := List.any_eq_false.mp hstopped frame hframe
    simpa using this
  rw [h, List.takeWhile_append_of_pos hall, List.takeWhile_eq_self_iff.mpr hall, List.filterMap_append]

theorem stopped_frames {more : List Frame} (h : c'.frames = c.frames ++ more)
    : c'.stopped = (c.stopped || more.any Frame.ends) := by
  unfold stopped
  rw [h, List.any_append]

end HubClient

end Frames

end Server
end MemStack
