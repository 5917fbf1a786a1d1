import MemStack.Server.TerminalHubContiguous

/-!
This module contains when a terminal hub reports that output is lost though nothing was evicted from its
replay buffer.
-/

namespace MemStack
namespace Server
namespace TerminalHub

open Machine

def Evicted (s : TerminalHub) (entry : ReplayEntry) : Prop :=
  entry ∈ s.recorded ∧ s.recording ≠ .numbered entry ∧ entry ∉ s.replay

structure ReplaysExactly (s : TerminalHub) (afterSequence : Nat) : Prop where
  gap : ∀ gap, s.replayAfter afterSequence = .error gap →
    s.sequence < afterSequence ∨ ∃ entry, s.Evicted entry ∧ afterSequence < entry.sequence
  window : ∀ window, s.replayAfter afterSequence = .ok window →
    (∀ entry, entry ∈ window.entries ↔ entry ∈ s.replay ∧ afterSequence < entry.sequence) ∧
    window.entries.Pairwise (fun entry entry' => entry.sequence < entry'.sequence)

def AwaitsEmptyBuffer (s : TerminalHub) (afterSequence : Nat) : Prop :=
  (∃ entry, s.recording = .numbered entry) ∧ s.replay = [] ∧ afterSequence + 1 = s.sequence ∧
    s.sequence < maxSequence

variable {s : TerminalHub} {afterSequence : Nat}

theorem pairwise_of_numbered {first : Nat} {entries : List ReplayEntry} (h : Numbered first entries)
    : entries.Pairwise (fun entry entry' => entry.sequence < entry'.sequence) := by
  have hmap : (entries.map (·.sequence)).Pairwise (· < ·) := by
    rw [h]
    exact List.pairwise_lt_range'
  exact List.pairwise_map.mp hmap

theorem replayAfter_window (h : Inv s) {window : ReplayWindow} (hok : s.replayAfter afterSequence = .ok window)
    : (∀ entry, entry ∈ window.entries ↔ entry ∈ s.replay ∧ afterSequence < entry.sequence) ∧
      window.entries.Pairwise (fun entry entry' => entry.sequence < entry'.sequence) := by
  obtain ⟨dropped, -, -, hnumbered⟩ := replay_numbered h
  unfold replayAfter at hok
  dsimp only at hok
  split at hok
  . cases hok
  . cases hok
    refine ⟨?_, (pairwise_of_numbered hnumbered).filter _⟩
    intro entry
    simp [List.mem_filter]

theorem replayAfter_eq_error (s : TerminalHub) (afterSequence : Nat)
    : (∃ gap, s.replayAfter afterSequence = .error gap) ↔ afterSequence > s.sequence ∨
      afterSequence < (s.replay.head?.map (·.sequence)).getD (min (s.sequence + 1) maxSequence) - 1 := by
  unfold replayAfter
  dsimp only
  split
  . next hgap => simp [hgap]
  . next hvalid => simp [hvalid]

theorem bufferedEntries_of_numbered (h : Inv s) {entry : ReplayEntry} (hrecording : s.recording = .numbered entry)
    : s.recorded = s.bufferedEntries ++ [entry] ∧ s.bufferedEntries.length + 1 = s.sequence := by
  have hsent := h.sent
  unfold bufferedEntries
  rw [hrecording] at hsent ⊢
  refine ⟨hsent, ?_⟩
  rw [← h.length, hsent]
  simp [Recording.hubEntry]

theorem bufferedEntries_of_not_numbered (hrecording : ¬ ∃ entry, s.recording = .numbered entry)
    : s.bufferedEntries = s.recorded := by
  unfold bufferedEntries
  cases hcase : s.recording with
  | numbered entry => exact absurd ⟨entry, hcase⟩ hrecording
  | none => rfl
  | buffered entry => rfl

theorem evicted_of_getElem? (h : Inv s) {n dropped : Nat} {entry : ReplayEntry}
    (hget : s.bufferedEntries[n]? = some entry) (hdrop : s.replay = s.bufferedEntries.drop dropped)
    (hn : n < dropped)
    : s.Evicted entry ∧ entry.sequence = n + 1 := by
  obtain ⟨rest, hrest⟩ := h.buffered_prefix
  have hrecorded : s.recorded[n]? = some entry := by
    rw [← hrest, List.getElem?_append_left (List.getElem?_eq_some_iff.mp hget).1]
    exact hget
  have hsequence := h.numbered.sequence_eq hrecorded
  refine ⟨⟨List.mem_of_getElem? hrecorded, ?_, ?_⟩, by omega⟩
  . intro hrecording
    -- The output that waits has the latest number.
    have hlast : s.recorded[s.bufferedEntries.length]? = some entry := by
      rw [(bufferedEntries_of_numbered h hrecording).1, List.getElem?_append_right le_rfl, Nat.sub_self]
      rfl
    have hlatest := h.numbered.sequence_eq hlast
    have hlt := (List.getElem?_eq_some_iff.mp hget).1
    omega
  . intro hmem
    rw [hdrop] at hmem
    obtain ⟨m, hm⟩ := List.mem_iff_getElem?.mp hmem
    rw [List.getElem?_drop] at hm
    have hrecorded' : s.recorded[dropped + m]? = some entry := by
      rw [← hrest, List.getElem?_append_left (List.getElem?_eq_some_iff.mp hm).1]
      exact hm
    have hsequence' := h.numbered.sequence_eq hrecorded'
    omega

theorem evicted_sequence_le (h : Inv s) {entry : ReplayEntry} (hevicted : s.Evicted entry)
    : entry.sequence ≤ s.bufferedEntries.length := by
  obtain ⟨hrecorded, hrecording, -⟩ := hevicted
  have hbuffered : entry ∈ s.bufferedEntries := by
    by_cases hnumbered : ∃ entry, s.recording = .numbered entry
    . obtain ⟨waiting, hwaiting⟩ := hnumbered
      rw [(bufferedEntries_of_numbered h hwaiting).1, List.mem_append, List.mem_singleton] at hrecorded
      rcases hrecorded with hmem | rfl
      . exact hmem
      . exact absurd hwaiting hrecording
    . rwa [bufferedEntries_of_not_numbered hnumbered]
  obtain ⟨n, hn⟩ := List.mem_iff_getElem?.mp hbuffered
  obtain ⟨rest, hrest⟩ := h.buffered_prefix
  have hlt := (List.getElem?_eq_some_iff.mp hn).1
  have hrecorded : s.recorded[n]? = some entry := by
    rw [← hrest, List.getElem?_append_left hlt]
    exact hn
  rw [h.numbered.sequence_eq hrecorded]
  omega

theorem replaysExactly_iff (h : Inv s) (afterSequence : Nat)
    : s.ReplaysExactly afterSequence ↔ ¬ s.AwaitsEmptyBuffer afterSequence := by
  have hbound := h.bound
  constructor
  . rintro hexact ⟨⟨entry, hrecording⟩, hempty, hlatest, hsmall⟩
    have hlength := (bufferedEntries_of_numbered h hrecording).2
    obtain ⟨gap, hgap⟩ := (replayAfter_eq_error s afterSequence).mpr (by
      right
      rw [hempty]
      simp only [List.head?_nil, Option.map_none, Option.getD_none]
      omega)
    rcases hexact.gap gap hgap with hgt | ⟨evicted, hevicted, hlater⟩
    . omega
    . have hle := evicted_sequence_le h hevicted
      omega
  . intro hnot
    refine ⟨?_, fun window hok => replayAfter_window h hok⟩
    intro gap hgap
    rcases (replayAfter_eq_error s afterSequence).mp ⟨gap, hgap⟩ with hgt | hearly
    . exact Or.inl hgt
    . right
      obtain ⟨dropped, hdrop, hle, hnumbered⟩ := replay_numbered h
      -- The output next to the number was inserted and is not in the buffer any more.
      have hinserted : afterSequence < dropped ∧ afterSequence < s.bufferedEntries.length := by
        cases hreplay : s.replay with
        | cons entry replay =>
          rw [hreplay, numbered_cons] at hnumbered
          rw [hreplay, List.head?_cons, Option.map_some, Option.getD_some, hnumbered.1] at hearly
          omega
        | nil =>
          rw [hreplay] at hearly hdrop
          have hall := List.drop_eq_nil_iff.mp hdrop.symm
          simp only [List.head?_nil, Option.map_none, Option.getD_none] at hearly
          by_cases hwaits : ∃ entry, s.recording = .numbered entry
          . obtain ⟨entry, hrecording⟩ := hwaits
            have hlength := (bufferedEntries_of_numbered h hrecording).2
            have hlatest : afterSequence + 1 ≠ s.sequence := by
              intro hlatest
              exact hnot ⟨⟨entry, hrecording⟩, hreplay, hlatest, by omega⟩
            omega
          . have hlength := congrArg List.length (bufferedEntries_of_not_numbered hwaits)
            rw [h.length] at hlength
            omega
      obtain ⟨hevicted, hsequence⟩ :=
        evicted_of_getElem? h (List.getElem?_eq_getElem hinserted.2) hdrop hinserted.1
      exact ⟨_, hevicted, by omega⟩

/--
In every state that the pump and the clients reach.
-/
theorem replaysExactly_final_iff (capacity : Nat) (requests : List HubRequest) (afterSequence : Nat)
    : (final (step capacity) {} requests).ReplaysExactly afterSequence ↔
      ¬ (final (step capacity) {} requests).AwaitsEmptyBuffer afterSequence := by
  apply replaysExactly_iff
  exact @inv_final _ _ _ (step capacity) Inv {} (fun s request h => step_inv h request) init_inv requests

/--
A client that reads while the first output waits for the buffer is told of a gap.
-/
theorem first_output_reported_lost
    : ¬ (final (step 16) {} [.record "ls"]).ReplaysExactly 0 := by
  intro hexact
  rcases hexact.gap ⟨0, 2, 1⟩ (by decide +kernel) with hgt | ⟨entry, ⟨hrecorded, hrecording, -⟩, -⟩
  . exact absurd hgt (by decide)
  . have hentry : entry = ⟨1, "ls"⟩ := List.mem_singleton.mp hrecorded
    rw [hentry] at hrecording
    exact hrecording rfl

end TerminalHub
end Server
end MemStack
