import MemStack.Server.TerminalHub

/-!
This module contains the verification of the output that a terminal hub sends to its clients.
-/

namespace MemStack
namespace Server

open Machine History

theorem prefix_concat {α : Type} {l l' : List α} {a : α} (h : l <+: l') (hget : l'[l.length]? = some a)
    : l ++ [a] <+: l' := by
  rcases h with ⟨rest, rfl⟩
  cases rest with
  | nil =>
    rw [List.append_nil, List.getElem?_eq_none le_rfl] at hget
    cases hget
  | cons b rest =>
    rw [List.getElem?_append_right le_rfl, Nat.sub_self, List.getElem?_cons_zero] at hget
    cases hget
    refine ⟨rest, ?_⟩
    rw [List.append_assoc]
    rfl

theorem prefix_drop_append {α : Type} {l l' more : List α} {n : Nat} (h : l <+: l'.drop n)
    : l <+: (l' ++ more).drop n := by
  rw [List.drop_append]
  exact h.trans (List.prefix_append _ _)

section Received

variable {events more : List HubEvent} {position : Nat} {entry : ReplayEntry} {code : String}

def received (events : List HubEvent) (position : Nat) : Nat :=
  ((events.take position).filterMap HubEvent.hubEntry).length

def awaited (n : Nat) : Nat :=
  min n (maxSequence - 1)

theorem received_append (h : position ≤ events.length)
    : received (events ++ more) position = received events position := by
  unfold received
  rw [List.take_append_of_le_length h]

theorem received_le (events : List HubEvent) (position : Nat)
    : received events position ≤ (events.filterMap HubEvent.hubEntry).length := by
  unfold received
  apply List.Sublist.length_le
  apply List.Sublist.filterMap
  apply List.take_sublist

theorem received_output (h : events[position]? = some (.output entry))
    : received events (position + 1) = received events position + 1 := by
  unfold received
  rw [List.take_add_one, h]
  simp [HubEvent.hubEntry]

theorem getElem?_received (h : events[position]? = some (.output entry))
    : (events.filterMap HubEvent.hubEntry)[received events position]? = some entry := by
  rcases List.getElem?_eq_some_iff.mp h with ⟨hlt, hget⟩
  have hsplit : events = events.take position ++ .output entry :: events.drop (position + 1) := by
    rw [← hget, ← List.drop_eq_getElem_cons hlt, List.take_append_drop]
  have hfilter : events.filterMap HubEvent.hubEntry
      = (events.take position).filterMap HubEvent.hubEntry
          ++ entry :: (events.drop (position + 1)).filterMap HubEvent.hubEntry := by
    conv => lhs; rw [hsplit, List.filterMap_append]
    rfl
  unfold received
  rw [hfilter, List.getElem?_append_right le_rfl, Nat.sub_self]
  rfl

end Received

section Client

variable {recorded : List ReplayEntry} {events : List HubEvent}

-- The client has all until its last number, `entries` come next, and the events after them are still to be received.
structure Going (recorded : List ReplayEntry) (events : List HubEvent) (c : HubClient) (entries : List ReplayEntry)
    : Prop where
  isPrefix : c.outputs ++ entries <+: recorded.drop c.afterSequence
  last : c.lastSequence = c.afterSequence + c.outputs.length
  received : awaited (received events c.position) ≤ c.lastSequence + entries.length

def ClientPlace.Going (recorded : List ReplayEntry) (events : List HubEvent) (c : HubClient) : ClientPlace → Prop
  | .subscribed => c.outputs = [] ∧ c.lastSequence = c.afterSequence
  | .connecting (.ok replay) => Server.Going recorded events c replay.entries
  | .acknowledging replay => Server.Going recorded events c replay.entries
  | .replaying entries => Server.Going recorded events c entries
  | .live => Server.Going recorded events c []
  | _ => True

structure ClientInv (recorded : List ReplayEntry) (events : List HubEvent) (c : HubClient) : Prop where
  position : c.position ≤ events.length
  isPrefix : c.outputs <+: recorded.drop c.afterSequence
  going : c.stopped = false → c.place.Going recorded events c

theorem Going.append {c : HubClient} {entries : List ReplayEntry} (h : Going recorded events c entries)
    (hposition : c.position ≤ events.length) (moreRecorded : List ReplayEntry) (moreEvents : List HubEvent)
    : Going (recorded ++ moreRecorded) (events ++ moreEvents) c entries := by
  refine ⟨prefix_drop_append h.isPrefix, h.last, ?_⟩
  rw [received_append hposition]
  exact h.received

theorem ClientInv.append {c : HubClient} (h : ClientInv recorded events c)
    (moreRecorded : List ReplayEntry) (moreEvents : List HubEvent)
    : ClientInv (recorded ++ moreRecorded) (events ++ moreEvents) c := by
  refine ⟨?_, prefix_drop_append h.isPrefix, ?_⟩
  . rw [List.length_append]
    exact Nat.le_add_right_of_le h.position
  . intro hstopped
    have hgoing := h.going hstopped
    revert hgoing
    cases c.place with
    | connecting replay =>
      cases replay with
      | error gap => exact id
      | ok replay =>
        intro hgoing
        exact hgoing.append h.position _ _
    | acknowledging replay =>
      intro hgoing
      exact hgoing.append h.position _ _
    | replaying entries =>
      intro hgoing
      exact hgoing.append h.position _ _
    | live =>
      intro hgoing
      exact hgoing.append h.position _ _
    | _ => exact id

variable {c c' : HubClient} {more : List Frame}

theorem outputs_silent (hframes : c'.frames = c.frames ++ more) (hsilent : ∀ frame ∈ more, frame.hubEntry = none)
    : c'.outputs = c.outputs := by
  cases hstopped : c.stopped with
  | true => exact (HubClient.stopped_of_frames hframes hstopped).2
  | false =>
    rw [HubClient.outputs_frames hframes hstopped, List.append_right_eq_self, List.filterMap_eq_nil_iff]
    intro frame hframe
    apply hsilent
    apply List.takeWhile_subset _ hframe

theorem Going.congr {entries : List ReplayEntry} (h : Going recorded events c entries)
    (houtputs : c'.outputs = c.outputs) (hafter : c'.afterSequence = c.afterSequence)
    (hlast : c'.lastSequence = c.lastSequence) (hposition : c'.position = c.position)
    : Going recorded events c' entries := by
  refine ⟨?_, ?_, ?_⟩
  . rw [houtputs, hafter]
    exact h.isPrefix
  . rw [houtputs, hafter, hlast]
    exact h.last
  . rw [hposition, hlast]
    exact h.received

theorem Going.sequence_eq {entry : ReplayEntry} {entries : List ReplayEntry}
    (h : Going recorded events c (entry :: entries)) (hnumbered : Numbered 1 recorded)
    : entry.sequence = c.lastSequence + 1 := by
  rcases h.isPrefix with ⟨rest, hrest⟩
  have hget : (recorded.drop c.afterSequence)[c.outputs.length]? = some entry := by
    rw [← hrest, List.append_assoc, List.getElem?_append_right le_rfl, Nat.sub_self]
    rfl
  rw [List.getElem?_drop, ← h.last] at hget
  rw [hnumbered.sequence_eq hget, Nat.add_comm]

theorem ClientInv.silent (h : ClientInv recorded events c) (hframes : c'.frames = c.frames ++ more)
    (hsilent : ∀ frame ∈ more, frame.hubEntry = none) (hafter : c'.afterSequence = c.afterSequence)
    (hposition : c'.position ≤ events.length)
    (hgoing : c.place.Going recorded events c → more.any Frame.ends = false → c'.place.Going recorded events c')
    : ClientInv recorded events c' := by
  refine ⟨hposition, ?_, ?_⟩
  . rw [outputs_silent hframes hsilent, hafter]
    exact h.isPrefix
  . intro hstopped
    rw [HubClient.stopped_frames hframes, Bool.or_eq_false_iff] at hstopped
    apply hgoing (h.going hstopped.1) hstopped.2

theorem ClientInv.output {entry : ReplayEntry} {entries : List ReplayEntry} {ok : Bool}
    (h : ClientInv recorded events c) (hgoing : c.stopped = false → Going recorded events c (entry :: entries))
    (hframes : c'.frames = c.frames ++ [if ok then .output entry else .failed])
    (hafter : c'.afterSequence = c.afterSequence) (hposition : c'.position ≤ events.length)
    (hlast : c.stopped = false → c'.lastSequence = c.lastSequence + 1)
    (hreceived : c.stopped = false → awaited (received events c'.position) ≤ c'.lastSequence + entries.length)
    (hplace : ok = true → Going recorded events c' entries → c'.place.Going recorded events c')
    : ClientInv recorded events c' := by
  cases hstopped : c.stopped with
  | true =>
    have hsame := HubClient.stopped_of_frames hframes hstopped
    refine ⟨hposition, ?_, ?_⟩
    . rw [hsame.2, hafter]
      exact h.isPrefix
    . intro hgoes
      rw [hsame.1] at hgoes
      cases hgoes
  | false =>
    have hgoing := hgoing hstopped
    have houtputs := HubClient.outputs_frames hframes hstopped
    cases ok with
    | false =>
      refine ⟨hposition, ?_, ?_⟩
      . rw [houtputs, hafter]
        simpa [Frame.ends] using h.isPrefix
      . intro hgoes
        rw [HubClient.stopped_frames hframes] at hgoes
        simp [Frame.ends] at hgoes
    | true =>
      have houtputs : c'.outputs = c.outputs ++ [entry] := houtputs
      have hconsistent : c'.outputs ++ entries <+: recorded.drop c'.afterSequence := by
        rw [houtputs, hafter, List.append_assoc]
        exact hgoing.isPrefix
      refine ⟨hposition, (List.prefix_append _ _).trans hconsistent, ?_⟩
      intro _
      apply hplace rfl
      refine ⟨hconsistent, ?_, hreceived hstopped⟩
      rw [houtputs, hafter, hlast hstopped, hgoing.last, List.length_append]
      rfl

end Client

section Sends

namespace HubClient

variable (c : HubClient) (frame : Frame) (ok : Bool)

@[simp]
theorem send_frames : (c.send frame ok).frames = c.frames ++ [if ok then frame else .failed] :=
  rfl

end HubClient

variable {recorded : List ReplayEntry} {events : List HubEvent} {c : HubClient}

theorem ClientInv.leave (h : ClientInv recorded events c) {c' : HubClient} {more : List Frame}
    (hframes : c'.frames = c.frames ++ more) (hsilent : ∀ frame ∈ more, frame.hubEntry = none)
    (hafter : c'.afterSequence = c.afterSequence) (hposition : c'.position ≤ events.length)
    : ClientInv recorded events (c'.moveTo .detached) := by
  apply @ClientInv.silent _ _ _ (c'.moveTo .detached) more h hframes hsilent hafter hposition
  intro _ _
  trivial

theorem hubEntry_sent {frame : Frame} (h : frame.hubEntry = none) (ok : Bool)
    : (if ok then frame else .failed).hubEntry = none := by
  cases ok
  . rfl
  . exact h

theorem ClientInv.leave_send (h : ClientInv recorded events c) {c' : HubClient} {frame : Frame} (ok : Bool)
    (hframes : c'.frames = c.frames) (hsilent : frame.hubEntry = none) (hafter : c'.afterSequence = c.afterSequence)
    (hposition : c'.position ≤ events.length)
    : ClientInv recorded events ((c'.send frame ok).moveTo .detached) := by
  apply @ClientInv.leave _ _ _ h _ [if ok then frame else .failed]
  . rw [HubClient.send_frames, hframes]
  . simpa using hubEntry_sent hsilent ok
  . exact hafter
  . exact hposition

theorem ClientInv.leave_send_send (h : ClientInv recorded events c) {c' : HubClient} {frame frame' : Frame}
    (ok ok' : Bool) (hframes : c'.frames = c.frames) (hsilent : frame.hubEntry = none)
    (hsilent' : frame'.hubEntry = none)
    (hafter : c'.afterSequence = c.afterSequence) (hposition : c'.position ≤ events.length)
    : ClientInv recorded events (((c'.send frame ok).send frame' ok').moveTo .detached) := by
  apply @ClientInv.leave _ _ _ h _ [if ok then frame else .failed, if ok' then frame' else .failed]
  . rw [HubClient.send_frames, HubClient.send_frames, hframes, List.append_assoc]
    rfl
  . simpa using ⟨hubEntry_sent hsilent ok, hubEntry_sent hsilent' ok'⟩
  . exact hafter
  . exact hposition

theorem ClientInv.leave_terminalLost (h : ClientInv recorded events c) {c' : HubClient} (code : String) (ok : Bool)
    (hframes : c'.frames = c.frames) (hafter : c'.afterSequence = c.afterSequence)
    (hposition : c'.position ≤ events.length)
    : ClientInv recorded events ((c'.sendTerminalLost code ok).moveTo .detached) := by
  unfold HubClient.sendTerminalLost
  split
  . apply h.leave_send_send _ _ hframes rfl rfl hafter hposition
  . apply h.leave_send _ hframes rfl hafter hposition

theorem ClientInv.proceed (h : ClientInv recorded events c) (hnumbered : Numbered 1 recorded) (ok : Bool)
    : ClientInv recorded events (c.proceed ok) := by
  unfold HubClient.proceed
  cases hplace : c.place with
  | connecting replay =>
    cases ok with
    | false => apply h.leave_send _ rfl rfl rfl h.position
    | true =>
      let frame := Frame.connected (c.afterSequence > 0)
      cases replay with
      | error gap =>
        apply @ClientInv.leave _ _ _ h _ [frame, .outputGap gap, .close 1013 "Terminal output retention gap"]
        . simp [HubClient.sendGap, frame]
        . simp [Frame.hubEntry, frame]
        . rfl
        . exact h.position
      | ok replay =>
        have hsilent : ∀ frame' ∈ [frame], frame'.hubEntry = none := by simp [Frame.hubEntry, frame]
        apply @ClientInv.silent _ _ _ ((c.send frame true).moveTo (.acknowledging replay)) _ h rfl hsilent rfl
          h.position
        intro hgoing _
        rw [hplace] at hgoing
        exact Going.congr hgoing (outputs_silent rfl hsilent) rfl rfl rfl
  | acknowledging replay =>
    cases ok with
    | false => apply h.leave_send _ rfl rfl rfl h.position
    | true =>
      let frame := Frame.ack c.afterSequence replay.oldestSequence replay.latestSequence
      have hsilent : ∀ frame' ∈ [frame], frame'.hubEntry = none := by simp [Frame.hubEntry, frame]
      apply @ClientInv.silent _ _ _ ((c.send frame true).moveTo (.replaying replay.entries)) _ h rfl hsilent rfl
        h.position
      intro hgoing _
      rw [hplace] at hgoing
      exact Going.congr hgoing (outputs_silent rfl hsilent) rfl rfl rfl
  | replaying entries =>
    cases entries with
    | nil =>
      apply @ClientInv.silent _ _ _ (c.moveTo .live) [] h (List.append_nil _).symm (by simp) rfl h.position
      intro hgoing _
      rw [hplace] at hgoing
      exact Going.congr hgoing rfl rfl rfl rfl
    | cons entry entries =>
      have hgoing : c.stopped = false → Going recorded events c (entry :: entries) := by
        intro hstopped
        have := h.going hstopped
        rw [hplace] at this
        exact this
      let next := { c with lastSequence := entry.sequence }.send (.output entry) ok
      have hlast : c.stopped = false → next.lastSequence = c.lastSequence + 1 := by
        intro hstopped
        apply (hgoing hstopped).sequence_eq hnumbered
      have hreceived : c.stopped = false →
          awaited (received events c.position) ≤ next.lastSequence + entries.length := by
        intro hstopped
        have hle := (hgoing hstopped).received
        rw [hlast hstopped]
        rw [List.length_cons] at hle
        omega
      cases ok with
      | false =>
        apply @ClientInv.output _ _ _ (next.moveTo .live) _ _ _ h hgoing rfl rfl h.position hlast hreceived
        intro hok
        cases hok
      | true =>
        apply @ClientInv.output _ _ _ (next.moveTo (.replaying entries)) _ _ _ h hgoing rfl rfl h.position hlast
          hreceived
        intro _ hnext
        exact hnext
  | _ => exact h

theorem ClientInv.receiveEvent {event : HubEvent} (h : ClientInv recorded events c) (hnumbered : Numbered 1 recorded)
    (hlength : recorded.length ≤ maxSequence) (hsent : events.filterMap HubEvent.hubEntry <+: recorded)
    (hplace : c.place = .live)
    (hget : events[c.position]? = some event) (ok : Bool)
    : ClientInv recorded events (c.receiveEvent event ok) := by
  have hposition : c.position + 1 ≤ events.length := (List.getElem?_eq_some_iff.mp hget).1
  have hlive : c.stopped = false → Going recorded events c [] := by
    intro hstopped
    have := h.going hstopped
    rw [hplace] at this
    exact this
  cases event with
  | lost code =>
    exact @ClientInv.leave_terminalLost _ _ _ h { c with position := c.position + 1 } code ok rfl rfl hposition
  | output entry =>
    rcases hsent with ⟨rest, hrest⟩
    have hentry := getElem?_received hget
    have hrecorded : recorded[received events c.position]? = some entry := by
      rw [← hrest, List.getElem?_append_left (List.getElem?_eq_some_iff.mp hentry).1]
      exact hentry
    have hsequence := hnumbered.sequence_eq hrecorded
    have hreceived := received_output hget
    have hawaited : awaited (received events c.position) = received events c.position := by
      have hlt := (List.getElem?_eq_some_iff.mp hrecorded).1
      unfold awaited
      omega
    unfold HubClient.receiveEvent
    dsimp only
    split
    . next hgt =>
      -- The client has received all before this entry.
      have hle : c.stopped = false → received events c.position = c.lastSequence := by
        intro hstopped
        have := (hlive hstopped).received
        rw [List.length_nil, hawaited] at this
        omega
      have hgoing : c.stopped = false → Going recorded events c [entry] := by
        intro hstopped
        have hlive := hlive hstopped
        refine ⟨?_, hlive.last, Nat.le_succ_of_le hlive.received⟩
        apply prefix_concat
        . simpa using hlive.isPrefix
        . rw [List.getElem?_drop, ← hlive.last, ← hle hstopped]
          exact hrecorded
      have hlast : c.stopped = false → entry.sequence = c.lastSequence + 1 := by
        intro hstopped
        apply (hgoing hstopped).sequence_eq hnumbered
      have hnext : c.stopped = false → awaited (received events (c.position + 1)) ≤ entry.sequence + 0 := by
        intro hstopped
        rw [hreceived, hsequence]
        unfold awaited
        omega
      let next := { c with position := c.position + 1, lastSequence := entry.sequence }.send (.output entry) ok
      cases ok with
      | false =>
        apply @ClientInv.output _ _ _ (next.moveTo .detached) _ [] _ h hgoing rfl rfl hposition hlast hnext
        intro hok
        cases hok
      | true =>
        apply @ClientInv.output _ _ _ next _ [] _ h hgoing rfl rfl hposition hlast hnext
        intro _ hgoes
        show next.place.Going recorded events next
        have hsame : next.place = .live := hplace
        rw [hsame]
        exact hgoes
    . next hle =>
      apply @ClientInv.silent _ _ _ { c with position := c.position + 1 } [] h (List.append_nil _).symm
        (by simp) rfl hposition
      intro hgoing _
      show c.place.Going recorded events _
      rw [hplace] at hgoing ⊢
      refine ⟨hgoing.isPrefix, hgoing.last, ?_⟩
      show awaited (received events (c.position + 1)) ≤ _
      rw [hreceived]
      show awaited (received events c.position + 1) ≤ c.lastSequence + 0
      unfold awaited
      omega

theorem ClientInv.receiveIncoming (h : ClientInv recorded events c) (hplace : c.place = .live) (incoming : Incoming)
    (ok : Bool)
    : ClientInv recorded events (c.receiveIncoming incoming ok) := by
  cases incoming with
  | input => exact h
  | ping =>
    cases ok with
    | false => apply h.leave_send _ rfl rfl rfl h.position
    | true =>
      have hsilent : ∀ frame ∈ [Frame.pong], frame.hubEntry = none := by simp [Frame.hubEntry]
      apply @ClientInv.silent _ _ _ (c.send .pong true) _ h rfl hsilent rfl h.position
      intro hgoing _
      show c.place.Going recorded events _
      rw [hplace] at hgoing ⊢
      exact Going.congr hgoing (outputs_silent rfl hsilent) rfl rfl rfl
  | tooLarge => apply h.leave_send_send _ _ rfl rfl rfl rfl h.position
  | inputClosed => apply h.leave_send _ rfl rfl rfl h.position
  | inputOverload => apply h.leave_send_send _ _ rfl rfl rfl rfl h.position
  | other => exact h
  | close => apply @ClientInv.leave _ _ _ h c [] (List.append_nil _).symm (by simp) rfl h.position

end Sends

def Recording.hubEntry : Recording → Option ReplayEntry
  | .none => Option.none
  | .numbered entry => some entry
  | .buffered entry => some entry

namespace TerminalHub

def sentEntries (s : TerminalHub) : List ReplayEntry :=
  s.events.filterMap HubEvent.hubEntry

def bufferedEntries (s : TerminalHub) : List ReplayEntry :=
  match s.recording with
  | .numbered _ => s.sentEntries
  | _ => s.recorded

structure Inv (s : TerminalHub) : Prop where
  numbered : Numbered 1 s.recorded
  length : s.recorded.length = s.sequence
  bound : s.sequence ≤ maxSequence
  sent : s.recorded = s.sentEntries ++ s.recording.hubEntry.toList
  replay : s.replay <:+ s.bufferedEntries
  replayBytes : s.replayBytes = replaySize s.replay
  fits : replaySize s.replay ≤ replayBufferBytes
  clients : ∀ c ∈ s.clients, ClientInv s.recorded s.events c

section Step

variable {s : TerminalHub} {capacity : Nat}

theorem Inv.sent_prefix (h : Inv s) : s.sentEntries <+: s.recorded := by
  rw [h.sent]
  apply List.prefix_append

theorem Inv.buffered_prefix (h : Inv s) : s.bufferedEntries <+: s.recorded := by
  unfold bufferedEntries
  split
  . apply h.sent_prefix
  . apply List.prefix_rfl

theorem Inv.sent_le (h : Inv s) : s.sentEntries.length ≤ s.bufferedEntries.length := by
  unfold bufferedEntries
  split
  . apply le_rfl
  . apply h.sent_prefix.length_le

theorem init_inv : Inv {} :=
  ⟨rfl, rfl, Nat.zero_le _, rfl, List.suffix_rfl, rfl, Nat.zero_le _, by simp⟩

theorem markLost_inv (h : Inv s) (code : String) : Inv (s.markLost code) := by
  unfold markLost
  split
  . have hsent : (s.events ++ [HubEvent.lost code]).filterMap HubEvent.hubEntry = s.sentEntries := by
      rw [List.filterMap_append]
      simp [HubEvent.hubEntry, sentEntries]
    refine ⟨h.numbered, h.length, h.bound, ?_, ?_, h.replayBytes, h.fits, ?_⟩
    . show s.recorded = (s.events ++ [HubEvent.lost code]).filterMap HubEvent.hubEntry ++ s.recording.hubEntry.toList
      rw [hsent]
      exact h.sent
    . have hreplay := h.replay
      unfold bufferedEntries at hreplay ⊢
      simp only [sentEntries, hsent]
      exact hreplay
    . intro c hc
      have := (h.clients c hc).append [] [.lost code]
      rwa [List.append_nil] at this
  . exact h

theorem record_inv (h : Inv s) (hrecording : s.recording = .none) (data : String) : Inv (s.record data) := by
  unfold record
  split
  . apply markLost_inv h
  . have hsent : s.recorded = s.sentEntries := by
      have := h.sent
      rw [hrecording] at this
      simpa [Recording.hubEntry] using this
    next hlast =>
    have hbound := h.bound
    refine ⟨?_, ?_, ?_, ?_, ?_, h.replayBytes, h.fits, ?_⟩
    . rw [numbered_append, numbered_cons, h.length]
      exact ⟨h.numbered, Nat.add_comm _ _, numbered_nil _⟩
    . simp [h.length]
    . show s.sequence + 1 ≤ maxSequence
      omega
    . show s.recorded ++ [_] = s.sentEntries ++ [_]
      rw [hsent]
    . show s.replay <:+ s.sentEntries
      have hreplay := h.replay
      unfold bufferedEntries at hreplay
      rw [hrecording] at hreplay
      rwa [← hsent]
    . intro c hc
      have := (h.clients c hc).append [{ sequence := s.sequence + 1, data }] []
      rwa [List.append_nil] at this

theorem buffer_inv (h : Inv s) {entry : ReplayEntry} (hrecording : s.recording = .numbered entry)
    : Inv (s.buffer entry) := by
  have hbytes : s.replayBytes + entry.data.utf8ByteSize = replaySize (s.replay ++ [entry]) := by
    rw [replaySize_concat, h.replayBytes]
  rcases trim_spec replayBufferBytes (s.replay ++ [entry]) with ⟨n, _, htrim, hfits⟩
  have hsent := h.sent
  have hreplay := h.replay
  unfold bufferedEntries at hreplay
  rw [hrecording] at hsent hreplay
  unfold buffer
  rw [hbytes, htrim]
  refine ⟨h.numbered, h.length, h.bound, ?_, ?_, rfl, hfits, h.clients⟩
  . exact hsent
  . show (s.replay ++ [entry]).drop n <:+ s.recorded
    apply (List.drop_suffix _ _).trans
    rw [hsent]
    rcases hreplay with ⟨dropped, hdropped⟩
    refine ⟨dropped, ?_⟩
    rw [← List.append_assoc, hdropped]
    rfl

theorem send_inv (h : Inv s) {entry : ReplayEntry} (hrecording : s.recording = .buffered entry)
    : Inv { s with events := s.events ++ [.output entry], recording := .none } := by
  have hsent := h.sent
  have hreplay := h.replay
  unfold bufferedEntries at hreplay
  rw [hrecording] at hsent hreplay
  refine ⟨h.numbered, h.length, h.bound, ?_, hreplay, h.replayBytes, h.fits, ?_⟩
  . show s.recorded = (s.events ++ [HubEvent.output entry]).filterMap HubEvent.hubEntry ++ []
    rw [List.filterMap_append, List.append_nil]
    exact hsent
  . intro c hc
    have := (h.clients c hc).append [] [.output entry]
    rwa [List.append_nil] at this

theorem attach_inv (h : Inv s) (afterSequence : Nat)
    : Inv { s with clients := s.clients ++
        [{ afterSequence, lastSequence := afterSequence, position := s.events.length }] } := by
  refine ⟨h.numbered, h.length, h.bound, h.sent, h.replay, h.replayBytes, h.fits, ?_⟩
  intro c hc
  rw [List.mem_append, List.mem_singleton] at hc
  rcases hc with hc | rfl
  . apply h.clients c hc
  . refine ⟨le_rfl, List.nil_prefix, ?_⟩
    intro _
    exact ⟨rfl, rfl⟩

theorem replay_numbered (h : Inv s)
    : ∃ dropped, s.replay = s.bufferedEntries.drop dropped ∧ dropped ≤ s.bufferedEntries.length ∧
        Numbered (1 + dropped) s.replay := by
  have hbuffered : Numbered 1 s.bufferedEntries := by
    rcases h.buffered_prefix with ⟨rest, hrest⟩
    have hnumbered := h.numbered
    rw [← hrest, numbered_append] at hnumbered
    exact hnumbered.1
  rcases h.replay with ⟨dropped, hdropped⟩
  have hdrop : s.replay = s.bufferedEntries.drop dropped.length := by
    rw [← hdropped, List.drop_left]
  have hle : dropped.length ≤ s.bufferedEntries.length := by
    rw [← hdropped, List.length_append]
    apply Nat.le_add_right
  refine ⟨dropped.length, hdrop, hle, ?_⟩
  rw [hdrop]
  apply hbuffered.drop hle

theorem replayAfter_entries (h : Inv s) {afterSequence : Nat} {window : ReplayWindow}
    (hok : s.replayAfter afterSequence = .ok window)
    : window.entries <+: s.bufferedEntries.drop afterSequence ∧
      awaited s.bufferedEntries.length ≤ afterSequence + window.entries.length := by
  rcases replay_numbered h with ⟨dropped, hdrop, hle, hnumbered⟩
  unfold replayAfter at hok
  dsimp only at hok
  split at hok
  . cases hok
  next hvalid =>
  cases hok
  show s.replay.filter (·.sequence > afterSequence) <+: _ ∧
    _ ≤ _ + (s.replay.filter (·.sequence > afterSequence)).length
  rw [hnumbered.filter_eq]
  cases hreplay : s.replay with
  | nil =>
    -- Nothing is left, and nothing comes after the client's number.
    rw [hreplay] at hvalid
    have hlength := h.buffered_prefix.length_le
    rw [h.length] at hlength
    simp only [List.head?_nil, Option.map_none, Option.getD_none] at hvalid
    rw [List.drop_nil]
    refine ⟨List.nil_prefix, ?_⟩
    unfold awaited
    rw [List.length_nil]
    omega
  | cons entry replay =>
    rw [hreplay, numbered_cons] at hnumbered
    rw [hreplay, List.head?_cons, Option.map_some, Option.getD_some, hnumbered.1] at hvalid
    rw [← hreplay, hdrop, List.drop_drop]
    rw [show dropped + (afterSequence + 1 - (1 + dropped)) = afterSequence by omega]
    refine ⟨List.prefix_rfl, ?_⟩
    rw [List.length_drop]
    unfold awaited
    omega

theorem replayAfter_going (h : Inv s) {c : HubClient} {window : ReplayWindow}
    (hplace : c.place.Going s.recorded s.events c)
    (hsubscribed : c.place = .subscribed) (hok : s.replayAfter c.afterSequence = .ok window)
    : Going s.recorded s.events c window.entries := by
  rw [hsubscribed] at hplace
  rcases hplace with ⟨houtputs, hlast⟩
  have hentries := replayAfter_entries h hok
  refine ⟨?_, ?_, ?_⟩
  . rw [houtputs, List.nil_append]
    exact hentries.1.trans (h.buffered_prefix.drop _)
  . rw [houtputs, hlast]
    rfl
  . have hreceived := received_le s.events c.position
    have hsent := h.sent_le
    have hawaited := hentries.2
    rw [hlast]
    unfold sentEntries at hsent
    unfold awaited at *
    omega

theorem clientStep_inv (h : Inv s) {c : HubClient} (hc : ClientInv s.recorded s.events c) (request : HubRequest)
    : ClientInv s.recorded s.events (s.clientStep capacity c request) := by
  unfold clientStep
  cases request with
  | replayAfter _ ok =>
    dsimp only
    split
    . next hplace =>
      split
      . apply hc.leave_terminalLost _ _ rfl rfl hc.position
      . apply @ClientInv.silent _ _ _ (c.moveTo (.connecting (s.replayAfter c.afterSequence))) [] hc
          (List.append_nil _).symm (by simp) rfl hc.position
        intro hgoing _
        show ClientPlace.Going _ _ _ (.connecting (s.replayAfter c.afterSequence))
        cases hreplay : s.replayAfter c.afterSequence with
        | error gap => trivial
        | ok window =>
          have hwindow := replayAfter_going h hgoing hplace hreplay
          exact Going.congr hwindow rfl rfl rfl rfl
    . apply hc.leave_send_send _ _ rfl rfl rfl rfl hc.position
    . exact hc
  | proceed _ ok => apply hc.proceed h.numbered
  | receive _ ok =>
    dsimp only
    split
    . next hplace =>
      split
      . exact hc
      . next hget =>
        split
        . apply @ClientInv.silent _ _ _ (c.moveTo .lagged) [] hc (List.append_nil _).symm (by simp) rfl hc.position
          intro _ _
          trivial
        . apply hc.receiveEvent h.numbered (le_of_eq_of_le h.length h.bound) h.sent_prefix hplace hget
    . exact hc
  | cancelled _ ok =>
    dsimp only
    split
    . apply hc.leave_terminalLost _ _ rfl rfl hc.position
    . exact hc
  | incoming _ incoming ok =>
    dsimp only
    split
    . next hplace => apply hc.receiveIncoming hplace
    . exact hc
  | _ => exact hc

theorem toClient_inv (h : Inv s) (client : Nat) (request : HubRequest) : Inv (s.toClient capacity client request) := by
  unfold toClient
  split
  . exact h
  . next c hget =>
    refine ⟨h.numbered, h.length, h.bound, h.sent, h.replay, h.replayBytes, h.fits, ?_⟩
    intro c' hc'
    rcases List.mem_or_eq_of_mem_set hc' with hc' | rfl
    . apply h.clients c' hc'
    . apply clientStep_inv h (h.clients c (List.mem_of_getElem? hget))

theorem step_inv (h : Inv s) (request : HubRequest) : Inv (s.step capacity request).1 := by
  unfold step
  cases request with
  | record data =>
    dsimp only
    split
    . next hrecording => apply record_inv h hrecording
    . exact h
  | buffer =>
    dsimp only
    split
    . next hrecording => apply buffer_inv h hrecording
    . exact h
  | send =>
    dsimp only
    split
    . next hrecording => apply send_inv h hrecording
    . exact h
  | markLost code => apply markLost_inv h
  | attach afterSequence => apply attach_inv h
  | replayAfter client ok => apply toClient_inv h
  | proceed client ok => apply toClient_inv h
  | receive client ok => apply toClient_inv h
  | cancelled client ok => apply toClient_inv h
  | incoming client incoming ok => apply toClient_inv h

end Step

abbrev Entry := Machine.Entry TerminalHub HubRequest Unit

section Recorded

def recordedBy (e : Entry) : Option String :=
  match e.request with
  | .record data => if e.before.recording = .none ∧ e.before.sequence ≠ maxSequence then some data else none
  | _ => none

def recordedIn (run : List Entry) : List ReplayEntry :=
  (run.filterMap recordedBy).mapIdx fun i data => { sequence := i + 1, data }

variable {capacity : Nat} {s : TerminalHub}

theorem recorded_toClient (client : Nat) (request : HubRequest)
    : (s.toClient capacity client request).recorded = s.recorded := by
  unfold toClient
  split <;> rfl

theorem recorded_markLost (code : String) : (s.markLost code).recorded = s.recorded := by
  unfold markLost
  split <;> rfl

theorem recorded_step (request : HubRequest)
    : (s.step capacity request).1.recorded.map (·.data)
        =
      s.recorded.map (·.data) ++ (recordedBy (entry (step capacity) s request)).toList := by
  unfold recordedBy entry
  cases request with
  | record data =>
    unfold step record
    cases hrecording : s.recording with
    | none =>
      by_cases hlast : s.sequence = maxSequence
      . simp [hlast, recorded_markLost]
      . simp [hlast]
    | numbered entry => simp
    | buffered entry => simp
  | buffer =>
    unfold step buffer
    cases s.recording <;> simp
  | send =>
    unfold step
    cases s.recording <;> simp
  | markLost code => simp [step, recorded_markLost]
  | attach afterSequence => simp [step]
  | replayAfter client ok => simp [step, recorded_toClient]
  | proceed client ok => simp [step, recorded_toClient]
  | receive client ok => simp [step, recorded_toClient]
  | cancelled client ok => simp [step, recorded_toClient]
  | incoming client incoming ok => simp [step, recorded_toClient]

theorem Inv.recorded_eq (h : Inv s) {run : List Entry}
    (hdata : s.recorded.map (·.data) = run.filterMap recordedBy)
    : s.recorded = recordedIn run := by
  unfold recordedIn
  rw [← hdata]
  simpa only [Nat.add_comm] using h.numbered.eq_mapIdx

end Recorded

structure Contiguous (recorded : List ReplayEntry) (c : HubClient) : Prop where
  numbered : Numbered (c.afterSequence + 1) c.outputs
  recorded : ∀ entry ∈ c.outputs, entry ∈ recorded

structure Replayable (recorded : List ReplayEntry) (s : TerminalHub) : Prop where
  latest : s.sequence = recorded.length
  numbered : ∃ oldest, oldest + s.replay.length = s.sequence + 1 ∧ Numbered oldest s.replay
  recorded : ∀ entry ∈ s.replay, entry ∈ recorded
  replayBytes : s.replayBytes = (s.replay.map (·.data.utf8ByteSize)).sum
  fits : s.replayBytes ≤ 512 * 1024

theorem Inv.contiguous {s : TerminalHub} (h : Inv s) {c : HubClient} (hc : c ∈ s.clients)
    : Contiguous s.recorded c := by
  have hconsistent := (h.clients c hc).isPrefix
  refine ⟨?_, ?_⟩
  . cases houtputs : c.outputs with
    | nil => apply numbered_nil
    | cons entry entries =>
      rw [← houtputs]
      have hle : c.afterSequence ≤ s.recorded.length := by
        have := hconsistent.length_le
        rw [houtputs, List.length_cons, List.length_drop] at this
        omega
      have hnumbered := h.numbered.drop hle
      rcases hconsistent with ⟨rest, hrest⟩
      rw [← hrest, numbered_append, Nat.add_comm] at hnumbered
      exact hnumbered.1
  . intro entry hentry
    apply List.mem_of_mem_drop (hconsistent.subset hentry)

theorem Inv.replayable {s : TerminalHub} (h : Inv s) (hrecording : s.recording = .none) : Replayable s.recorded s := by
  have hbuffered : s.bufferedEntries = s.recorded := by
    unfold bufferedEntries
    rw [hrecording]
  rcases replay_numbered h with ⟨dropped, hdrop, hle, hnumbered⟩
  refine ⟨h.length.symm, ⟨1 + dropped, ?_, hnumbered⟩, ?_, h.replayBytes, ?_⟩
  . rw [hdrop, List.length_drop, hbuffered, h.length]
    rw [hbuffered, h.length] at hle
    omega
  . intro entry hentry
    rw [← hbuffered]
    apply h.replay.subset hentry
  . rw [h.replayBytes]
    exact h.fits

structure Delivers (past : List Entry) (e : Entry) : Prop where
  contiguous : ∀ c ∈ e.after.clients, Contiguous (recordedIn (past ++ [e])) c
  replayable : e.after.recording = .none → Replayable (recordedIn (past ++ [e])) e.after

def RunInv (past : List Entry) (s : TerminalHub) : Prop :=
  Inv s ∧ s.recorded.map (·.data) = past.filterMap recordedBy

theorem step_delivers {capacity : Nat} {past : List Entry} {s : TerminalHub} (h : RunInv past s) (request : HubRequest)
    : Delivers past (entry (step capacity) s request) ∧
        RunInv (past ++ [entry (step capacity) s request]) (s.step capacity request).1 := by
  have hinv : Inv (s.step capacity request).1 := step_inv h.1 request
  have hdata : (s.step capacity request).1.recorded.map (·.data) =
      (past ++ [entry (step capacity) s request]).filterMap recordedBy := by
    rw [recorded_step, h.2, List.filterMap_append]
    cases hrecorded : recordedBy (entry (step capacity) s request) with
    | none => simp [hrecorded]
    | some data => simp [hrecorded]
  refine ⟨?_, hinv, hdata⟩
  constructor
  . rw [← hinv.recorded_eq hdata]
    exact fun c hc => hinv.contiguous hc
  . rw [← hinv.recorded_eq hdata]
    exact hinv.replayable

/--
Whatever order the pump and the clients run in, each client gets the output that was recorded after its number
without a gap until it is told of one, and the buffer holds the latest output.
-/
theorem contiguous_run (capacity : Nat) (requests : List HubRequest)
    : AtEach Delivers (transcript (step capacity) {} requests) := by
  apply @atEach_transcript _ _ _ (step capacity) (fun _ _ => True) RunInv Delivers _ _ ⟨init_inv, rfl⟩ requests
  . intro _ _
    trivial
  . intro past s request h _
    exact step_delivers h request

def twoOutputs : List HubRequest :=
  [.record "ls", .buffer, .send, .attach 0, .replayAfter 0 true, .record "cd", .proceed 0 true, .proceed 0 true,
    .buffer,
    .proceed 0 true, .send, .proceed 0 true, .receive 0 true]

theorem contiguous_run_twoOutputs
    : (transcript (step 16) {} twoOutputs).getLast?.map
          (fun e => e.after.clients.map fun c => c.outputs.map fun entry => (entry.sequence, entry.data)) =
        some [[(1, "ls"), (2, "cd")]] ∧
      AtEach Delivers (transcript (step 16) {} twoOutputs) :=
  ⟨by decide +kernel, contiguous_run 16 twoOutputs⟩

end TerminalHub

end Server
end MemStack
