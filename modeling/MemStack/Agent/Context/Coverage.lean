import MemStack.Agent.Context.Compression

/-!
This module contains when the compression of a conversation loses no message.
-/

namespace MemStack
namespace Agent
namespace Context

variable {config : Config} {state : CompressionState} {messages : List Message}

section Prune

def IsPruned (config : Config) (message message' : Message) : Prop :=
  message' = message ∨ ∃ kind, message' = message.pruned config kind

theorem isPruned_pruneToolOutputs
    : List.Forall₂ (IsPruned config) messages (pruneToolOutputs config messages) := by
  unfold pruneToolOutputs
  dsimp only
  split
  . apply List.forall₂_same.mpr
    intro message _
    exact .inl rfl
  . unfold applyPruning
    rw [List.forall₂_iff_get]
    refine ⟨by simp, ?_⟩
    intro i h _
    simp only [List.get_eq_getElem, List.getElem_map, List.getElem_zipIdx, Nat.zero_add]
    split
    . next kind _ => exact .inr ⟨kind, rfl⟩
    . exact .inl rfl

end Prune

section Covers

theorem covers_of_global_none (h : state.globalSummary = none) (i : Nat)
    : state.covers i
        ↔
      ∃ chunk ∈ state.summaryChunks, chunk.messageStartIndex ≤ i ∧ i < chunk.messageEndIndex := by
  unfold CompressionState.covers
  rw [h, Option.filter_none, List.any_eq_true]
  simp only [Bool.and_eq_true, decide_eq_true_eq]

theorem covers_addSummaryChunk {chunk : SummaryChunk} (h : state.globalSummary = none) (i : Nat)
    : (state.addSummaryChunk chunk).covers i
        ↔
      state.covers i ∨ chunk.messageStartIndex ≤ i ∧ i < chunk.messageEndIndex := by
  rw [covers_of_global_none h, covers_of_global_none (by exact h)]
  unfold CompressionState.addSummaryChunk
  simp only [List.mem_append, List.mem_singleton, or_and_right, exists_or, exists_eq_left]

theorem covers_setGlobalSummary {summary : GlobalSummary} (h : summary.text ≠ "") (i : Nat)
    : (state.setGlobalSummary summary).covers i = summary.absorbed i := by
  unfold CompressionState.covers CompressionState.setGlobalSummary
  dsimp only
  rw [Option.filter_some, if_pos (by simpa using h)]

end Covers

section Chunks

variable {startIdx unsummarized : Nat} {answer : Nat → Option String} {starts : List Nat} {b m : Nat}

def ChunkSummarized (config : Config) (unsummarized : Nat) (answer : Nat → Option String)
    (chunkStart : Nat) : Prop :=
  3 ≤ min (chunkStart + config.chunkSize) unsummarized - chunkStart ∧
  ∃ text, answer chunkStart = some text ∧ text ≠ ""

structure ChunksKept (limit : Nat) (state state' : CompressionState) : Prop where
  globalSummary : state'.globalSummary = state.globalSummary
  upTo : state.messagesSummarizedUpTo ≤ limit → state'.messagesSummarizedUpTo ≤ limit
  texts : (∀ chunk ∈ state.summaryChunks, chunk.summaryText ≠ "") →
    ∀ chunk ∈ state'.summaryChunks, chunk.summaryText ≠ ""

theorem ChunksKept.refl (limit : Nat) (state : CompressionState) : ChunksKept limit state state :=
  ⟨rfl, id, id⟩

theorem ChunksKept.add {limit : Nat} {chunk : SummaryChunk} {state' : CompressionState}
    (h : ChunksKept limit (state.addSummaryChunk chunk) state') (htext : chunk.summaryText ≠ "")
    (hend : chunk.messageEndIndex ≤ limit)
    : ChunksKept limit state state' := by
  refine ⟨h.globalSummary, fun _ => h.upTo hend, ?_⟩
  intro htexts
  apply h.texts
  intro chunk' hchunk'
  unfold CompressionState.addSummaryChunk at hchunk'
  rw [List.mem_append, List.mem_singleton] at hchunk'
  cases hchunk' with
  | inl hold => apply htexts chunk' hold
  | inr hnew =>
    rw [hnew]
    exact htext

theorem chunksKept_summarizeChunks
    : ChunksKept (startIdx + unsummarized) state
        (summarizeChunks config startIdx unsummarized answer starts state) := by
  induction starts generalizing state with
  | nil => apply ChunksKept.refl
  | cons chunkStart starts ih =>
    rw [summarizeChunks]
    dsimp only
    split
    . apply ChunksKept.refl
    . split
      . apply ChunksKept.refl
      . next text _ =>
        split
        . apply ih
        . next htext =>
          apply ih.add htext
          dsimp only
          omega

theorem covers_summarizeChunks_of_lt (hglobal : state.globalSummary = none)
    (hstarts : ∀ chunkStart ∈ starts, b ≤ chunkStart) {i : Nat} (hi : i < startIdx + b)
    : (summarizeChunks config startIdx unsummarized answer starts state).covers i ↔ state.covers i := by
  induction starts generalizing state with
  | nil => rfl
  | cons chunkStart starts ih =>
    rw [List.forall_mem_cons] at hstarts
    rw [summarizeChunks]
    dsimp only
    split
    . rfl
    . split
      . rfl
      . split
        . apply ih hglobal hstarts.2
        . rw [ih _ hstarts.2, covers_addSummaryChunk hglobal]
          . dsimp only
            apply or_iff_left
            omega
          . exact hglobal

def Spans (config : Config) (unsummarized b m : Nat) : Prop :=
  unsummarized ≤ b + m * config.chunkSize ∧ ∀ k < m, b + k * config.chunkSize < unsummarized

theorem Spans.tail (h : Spans config unsummarized b (m + 1))
    : b < unsummarized ∧ Spans config unsummarized (b + config.chunkSize) m := by
  have hfirst := h.2 0 (Nat.succ_pos m)
  refine ⟨by omega, ?_, ?_⟩
  . have hend := h.1
    rw [Nat.succ_mul] at hend
    omega
  . intro k hk
    have hnext := h.2 (k + 1) (by omega)
    rw [Nat.succ_mul] at hnext
    omega

theorem le_of_mem_range' {k step : Nat} (h : k ∈ List.range' b m step) : b ≤ k := by
  rw [List.mem_range'] at h
  rcases h with ⟨i, _, rfl⟩
  apply Nat.le_add_right

structure CoversTo (state : CompressionState) (limit : Nat) : Prop where
  upTo : state.messagesSummarizedUpTo = limit
  covers : ∀ i, state.covers i ↔ i < limit

theorem coversTo_summarizeChunks (hspans : Spans config unsummarized b m)
    (hglobal : state.globalSummary = none) (hcovers : CoversTo state (startIdx + min b unsummarized))
    (hchunks : ∀ chunkStart ∈ List.range' b m config.chunkSize,
      ChunkSummarized config unsummarized answer chunkStart)
    : CoversTo (summarizeChunks config startIdx unsummarized answer (List.range' b m config.chunkSize) state)
        (startIdx + unsummarized) := by
  induction m generalizing b state with
  | zero =>
    have hend := hspans.1
    rw [Nat.zero_mul] at hend
    rw [Nat.min_eq_right (by omega)] at hcovers
    exact hcovers
  | succ m ih =>
    rw [List.range'_succ, List.forall_mem_cons] at hchunks
    rcases hchunks.1 with ⟨hlong, text, htext, hne⟩
    rw [List.range'_succ, summarizeChunks]
    dsimp only
    rw [if_neg (by omega), htext]
    dsimp only
    rw [if_neg hne]
    apply ih hspans.tail.2 _ _ hchunks.2
    . exact hglobal
    . refine ⟨rfl, ?_⟩
      intro i
      rw [covers_addSummaryChunk hglobal, hcovers.covers]
      have hb := hspans.tail.1
      dsimp only
      omega

theorem chunkSummarized_of_covers (hspans : Spans config unsummarized b m)
    (hglobal : state.globalSummary = none) (hcovers : CoversTo state (startIdx + min b unsummarized))
    (hall : ∀ i < startIdx + unsummarized,
      (summarizeChunks config startIdx unsummarized answer (List.range' b m config.chunkSize) state).covers i)
    : ∀ chunkStart ∈ List.range' b m config.chunkSize,
        ChunkSummarized config unsummarized answer chunkStart := by
  induction m generalizing b state with
  | zero => simp
  | succ m ih =>
    have hb := hspans.tail.1
    rw [List.range'_succ, summarizeChunks] at hall
    have hnot : ¬ state.covers (startIdx + b) := by
      rw [hcovers.covers]
      omega
    have hpos := config.chunkSize_pos
    dsimp only at hall
    split at hall
    . exact absurd (hall _ (by omega)) hnot
    . next hlong =>
      split at hall
      . exact absurd (hall _ (by omega)) hnot
      . next text htext =>
        split at hall
        . have hfirst := hall (startIdx + b) (by omega)
          rw [covers_summarizeChunks_of_lt (b := b + config.chunkSize) hglobal] at hfirst
          . exact absurd hfirst hnot
          . intro k hk
            apply le_of_mem_range' hk
          . omega
        . next hne =>
          rw [List.range'_succ, List.forall_mem_cons]
          refine ⟨⟨by omega, text, htext, hne⟩, ?_⟩
          apply ih hspans.tail.2 _ _ hall
          . exact hglobal
          . refine ⟨rfl, ?_⟩
            intro i
            rw [covers_addSummaryChunk hglobal, hcovers.covers]
            dsimp only
            omega

theorem spans_chunkStarts
    : Spans config unsummarized 0 ((unsummarized + config.chunkSize - 1) / config.chunkSize) := by
  have hpos := config.chunkSize_pos
  constructor
  . have hmod := Nat.div_add_mod (unsummarized + config.chunkSize - 1) config.chunkSize
    have hlt := Nat.mod_lt (unsummarized + config.chunkSize - 1) hpos
    rw [Nat.mul_comm] at hmod
    omega
  . intro k hk
    rw [Nat.lt_iff_add_one_le, Nat.le_div_iff_mul_le hpos, Nat.succ_mul] at hk
    omega

end Chunks

end Context
end Agent
end MemStack
