import MemStack.Agent.Context.Coverage

/-!
This module contains just when a run of compressions loses no message.
-/

namespace MemStack
namespace Agent
namespace Context

variable {config : Config} {state state' : CompressionState} {messages : List Message} {call : Call}

section Invariant

structure CompressionState.TextsNonempty (state : CompressionState) : Prop where
  chunk_text_ne : ∀ chunk ∈ state.summaryChunks, chunk.summaryText ≠ ""
  global_text_ne : ∀ summary, state.globalSummary = some summary → summary.text ≠ ""

structure CompressionState.Valid (state : CompressionState) (count : Nat) : Prop
    extends state.TextsNonempty where
  upTo_le : state.messagesSummarizedUpTo ≤ count
  coversTo : state.globalSummary = none → CoversTo state state.messagesSummarizedUpTo

theorem CompressionState.valid_empty : Valid {} 0 := by
  refine ⟨⟨?_, ?_⟩, Nat.le_refl 0, ?_⟩
  . intro chunk hchunk
    cases hchunk
  . intro summary hsummary
    cases hsummary
  . intro _
    refine ⟨rfl, ?_⟩
    intro i
    rw [covers_of_global_none rfl]
    simp

theorem CompressionState.Valid.mono {count count' : Nat} (h : state.Valid count) (hle : count ≤ count')
    : state.Valid count' :=
  { h with upTo_le := Nat.le_trans h.upTo_le hle }

theorem CompressionState.TextsNonempty.combined_ne {i : Nat} (h : state.TextsNonempty)
    (hi : state.covers i)
    : ∃ summary, state.getCombinedSummary = some summary ∧ summary ≠ "" := by
  unfold getCombinedSummary
  cases hglobal : state.globalSummary with
  | some summary =>
    have hne := h.global_text_ne summary hglobal
    refine ⟨summary.text, ?_, hne⟩
    rw [Option.filter_some, if_pos (by simpa using hne)]
  | none =>
    rw [covers_of_global_none hglobal] at hi
    rcases hi with ⟨chunk, hchunk, _⟩
    have hnonempty := List.ne_nil_of_mem hchunk
    refine ⟨_, by rw [Option.filter_none]; exact if_neg hnonempty, ?_⟩
    cases hchunks : state.summaryChunks with
    | nil => exact absurd hchunks hnonempty
    | cons first rest =>
      have hfirst := h.chunk_text_ne first (by simp [hchunks])
      cases rest with
      | nil => simpa using hfirst
      | cons second rest =>
        rw [List.map_cons, List.map_cons, String.intercalate_cons_cons]
        intro hempty
        simp at hempty

end Invariant

section Condition

variable {count : Nat}

def Summarizes (config : Config) (count : Nat) (answer : Nat → Option String) (state : CompressionState)
    : Prop :=
  (∀ i < endIdx count state, state.covers i) ∨
  (state.globalSummary = none ∧
    config.chunkSize ≤ endIdx count state - state.messagesSummarizedUpTo ∧
    ∀ chunkStart ∈ chunkStarts config (endIdx count state - state.messagesSummarizedUpTo),
      ChunkSummarized config (endIdx count state - state.messagesSummarizedUpTo) answer chunkStart)

def Call.Safe (config : Config) (call : Call) (state : CompressionState) (count : Nat) : Prop :=
  call.level = .l2Summarize ∨ call.level = .l3DeepCompress → call.hasClient →
    Summarizes config count call.chunkAnswer state

theorem endIdx_le (h : state.messagesSummarizedUpTo ≤ count) : endIdx count state ≤ count := by
  unfold endIdx
  omega

theorem upTo_le_endIdx : state.messagesSummarizedUpTo ≤ endIdx count state :=
  Nat.le_max_left _ _

theorem chunksKept_incrementalSummarize {answer : Nat → Option String}
    : ChunksKept (endIdx count state) state (incrementalSummarize config count answer state) := by
  unfold incrementalSummarize
  dsimp only
  split
  . apply ChunksKept.refl
  . have hkept := @chunksKept_summarizeChunks config state state.messagesSummarizedUpTo
      (endIdx count state - state.messagesSummarizedUpTo) answer
      (chunkStarts config (endIdx count state - state.messagesSummarizedUpTo))
    rw [Nat.add_sub_cancel' upTo_le_endIdx] at hkept
    exact hkept

theorem covers_of_chunksKept {limit : Nat} {summary : GlobalSummary}
    (h : ChunksKept limit state state') (hglobal : state.globalSummary = some summary)
    (hne : summary.text ≠ "") (i : Nat)
    : state'.covers i = state.covers i := by
  unfold CompressionState.covers
  rw [h.globalSummary, hglobal, Option.filter_some, if_pos (by simpa using hne)]

theorem covers_incrementalSummarize_iff {answer : Nat → Option String} (h : state.Valid count)
    : (∀ i < endIdx count state, (incrementalSummarize config count answer state).covers i)
        ↔
      Summarizes config count answer state := by
  have hkept := @chunksKept_incrementalSummarize config state count answer
  cases hglobal : state.globalSummary with
  | some summary =>
    have hsame := covers_of_chunksKept hkept hglobal (h.global_text_ne summary hglobal)
    simp only [hsame, Summarizes, hglobal, reduceCtorEq, false_and, or_false]
  | none =>
    have hcovers := h.coversTo hglobal
    unfold incrementalSummarize Summarizes
    dsimp only
    split
    . next hfew =>
      have hnot := Nat.not_le_of_lt hfew
      simp only [hnot, false_and, and_false, or_false]
    . next hmany =>
      have hpos := config.chunkSize_pos
      have hend := Nat.add_sub_cancel' (@upTo_le_endIdx state count)
      have hzero : CoversTo state (state.messagesSummarizedUpTo
          + min 0 (endIdx count state - state.messagesSummarizedUpTo)) := by
        rw [Nat.zero_min]
        exact hcovers
      have hgap : ¬ ∀ i < endIdx count state, state.covers i := by
        intro hall
        have hfirst := hall state.messagesSummarizedUpTo (by omega)
        rw [hcovers.covers] at hfirst
        omega
      rw [or_iff_right hgap]
      constructor
      . intro hall
        refine ⟨hglobal, by omega, ?_⟩
        apply chunkSummarized_of_covers spans_chunkStarts hglobal hzero
        rw [hend]
        exact hall
      . rintro ⟨_, _, hchunks⟩
        have hdone := coversTo_summarizeChunks spans_chunkStarts hglobal hzero hchunks
        rw [hend] at hdone
        intro i hi
        apply (hdone.covers i).mpr hi

theorem textsNonempty_incrementalSummarize {answer : Nat → Option String} (h : state.TextsNonempty)
    : (incrementalSummarize config count answer state).TextsNonempty := by
  have hkept := @chunksKept_incrementalSummarize config state count answer
  refine ⟨hkept.texts h.chunk_text_ne, ?_⟩
  rw [hkept.globalSummary]
  exact h.global_text_ne

theorem valid_incrementalSummarize {answer : Nat → Option String} (h : state.Valid count)
    (hsummarizes : Summarizes config count answer state)
    : (incrementalSummarize config count answer state).Valid count := by
  have hkept := @chunksKept_incrementalSummarize config state count answer
  have hle := hkept.upTo upTo_le_endIdx
  refine ⟨textsNonempty_incrementalSummarize h.toTextsNonempty, ?_, ?_⟩
  . apply Nat.le_trans hle
    apply endIdx_le h.upTo_le
  . rw [hkept.globalSummary]
    intro hglobal
    have hcovers := h.coversTo hglobal
    unfold incrementalSummarize
    dsimp only
    split
    . exact hcovers
    . next hmany =>
      cases hsummarizes with
      | inl hall =>
        have hpos := config.chunkSize_pos
        have hfirst := hall state.messagesSummarizedUpTo (by omega)
        rw [hcovers.covers] at hfirst
        omega
      | inr hchunks =>
        have hdone := @coversTo_summarizeChunks config state state.messagesSummarizedUpTo
          _ _ 0 _ spans_chunkStarts hglobal (by rw [Nat.zero_min]; exact hcovers) hchunks.2.2
        have hupTo := hdone.upTo
        unfold chunkStarts
        rw [hupTo]
        exact hdone

end Condition

section Result

variable {systemPrompt : String} {summary : Option String} {kept : List Message} {k : Nat}

structure LosesNothing (config : Config) (messages : List Message) (systemPrompt : String)
    (state : CompressionState) (result : CompressionResult) : Prop where
  present : ∃ kept, List.Forall₂ (IsPruned config) messages kept ∧
    result.messages = kept.drop (messages.length - result.messages.length)
  shown : ∀ i < messages.length - result.messages.length, state.covers i ∧
    ∃ summary, state.getCombinedSummary = some summary ∧
      result.system = some (systemPrompt ++ "\n\n[Previous conversation summary]\n" ++ summary)

theorem losesNothing_buildCompressedOutput_iff (hk : k ≤ messages.length)
    (hkept : List.Forall₂ (IsPruned config) messages kept) (htexts : state.TextsNonempty)
    (hsummary : 0 < k → summary = state.getCombinedSummary)
    : LosesNothing config messages systemPrompt state
        (buildCompressedOutput systemPrompt summary (kept.drop k))
        ↔
      ∀ i < k, state.covers i := by
  have hdropped : messages.length - (kept.drop k).length = k := by
    rw [List.length_drop, ← hkept.length_eq]
    omega
  constructor
  . intro h i hi
    apply (h.shown i _).1
    unfold buildCompressedOutput
    dsimp only
    rw [hdropped]
    exact hi
  . intro hcovers
    unfold buildCompressedOutput
    refine ⟨⟨kept, hkept, ?_⟩, ?_⟩
    . dsimp only
      rw [hdropped]
    . dsimp only
      rw [hdropped]
      intro i hi
      rcases htexts.combined_ne (hcovers i hi) with ⟨text, htext, hne⟩
      refine ⟨hcovers i hi, text, htext, ?_⟩
      have hfilter : (some text).filter (· ≠ "") = some text := by
        rw [Option.filter_some, if_pos (by simpa using hne)]
      rw [hsummary (by omega), htext, hfilter]
      dsimp only
      rw [if_neg]
      intro hempty
      simp at hempty

theorem losesNothing_all (hkept : List.Forall₂ (IsPruned config) messages kept)
    (htexts : state.TextsNonempty)
    : LosesNothing config messages systemPrompt state (buildCompressedOutput systemPrompt none kept) := by
  have hall := @losesNothing_buildCompressedOutput_iff config state messages systemPrompt none kept 0
    (Nat.zero_le _) hkept htexts (fun h => absurd h (Nat.lt_irrefl 0))
  rw [List.drop_zero] at hall
  rw [hall]
  intro i hi
  omega

theorem textsNonempty_setGlobalSummary {summary : GlobalSummary} (htexts : state.TextsNonempty)
    (hne : summary.text ≠ "")
    : (state.setGlobalSummary summary).TextsNonempty := by
  refine ⟨htexts.chunk_text_ne, ?_⟩
  intro summary' hsummary'
  cases hsummary'
  exact hne

theorem losesNothing_deepCompress_iff {answer : Option String} (hk : k ≤ messages.length)
    (hkept : List.Forall₂ (IsPruned config) messages kept) (htexts : state.TextsNonempty)
    : LosesNothing config messages systemPrompt
        (deepCompress answer messages.length (kept.drop k) state).1
        (buildCompressedOutput systemPrompt (deepCompress answer messages.length (kept.drop k) state).2.2
          (deepCompress answer messages.length (kept.drop k) state).2.1)
        ↔
      ∀ i < k, state.covers i := by
  unfold deepCompress
  split
  . next text htext =>
    rw [Option.filter_eq_some_iff] at htext
    have hne : text ≠ "" := by simpa using htext.2
    have hlength : (kept.drop k).length = messages.length - k := by
      rw [List.length_drop, hkept.length_eq]
    dsimp only
    rw [List.drop_drop, losesNothing_buildCompressedOutput_iff (by omega) hkept]
    . rw [hlength]
      constructor
      . intro hall i hi
        have := hall i (by omega)
        rw [covers_setGlobalSummary hne, Bool.or_eq_true] at this
        cases this with
        | inl h => exact h
        | inr h =>
          simp only [Bool.and_eq_true, decide_eq_true_eq] at h
          omega
      . intro hall i hi
        rw [covers_setGlobalSummary hne]
        simp only [Bool.or_eq_true, Bool.and_eq_true, decide_eq_true_eq]
        by_cases hik : i < k
        . exact .inl (hall i hik)
        . right
          omega
    . apply textsNonempty_setGlobalSummary htexts hne
    . intro _
      unfold CompressionState.setGlobalSummary CompressionState.getCombinedSummary
      dsimp only
      rw [Option.filter_some, if_pos (by simpa using hne)]
  . apply losesNothing_buildCompressedOutput_iff hk hkept htexts
    intro _
    rfl

theorem valid_deepCompress {answer : Option String} {rest : List Message}
    (h : state.Valid messages.length)
    : (deepCompress answer messages.length rest state).1.Valid messages.length := by
  unfold deepCompress
  split
  . next text htext =>
    rw [Option.filter_eq_some_iff] at htext
    have hne : text ≠ "" := by simpa using htext.2
    refine ⟨textsNonempty_setGlobalSummary h.toTextsNonempty hne, h.upTo_le, ?_⟩
    intro hglobal
    cases hglobal
  . exact h

end Result

section Run

theorem losesNothing_compress_iff (h : state.Valid messages.length)
    : LosesNothing config messages call.systemPrompt (compress config call messages state).1
        (compress config call messages state).2
        ↔
      call.Safe config state messages.length := by
  have hkept := @isPruned_pruneToolOutputs config messages
  have hend := endIdx_le h.upTo_le
  have htexts := h.toTextsNonempty
  unfold compress Call.Safe
  cases call.level with
  | none =>
    dsimp only
    rw [iff_true_right (by simp)]
    apply losesNothing_all _ htexts
    apply List.forall₂_same.mpr
    intro message _
    exact .inl rfl
  | l1Prune =>
    dsimp only
    rw [iff_true_right (by simp)]
    apply losesNothing_all hkept htexts
  | l2Summarize =>
    cases call.hasClient with
    | false =>
      rw [iff_true_right (by simp)]
      apply losesNothing_all hkept htexts
    | true =>
      simp only [↓reduceIte, true_or, forall_const]
      rw [losesNothing_buildCompressedOutput_iff hend hkept]
      . apply covers_incrementalSummarize_iff h
      . apply textsNonempty_incrementalSummarize htexts
      . intro _
        rfl
  | l3DeepCompress =>
    cases call.hasClient with
    | false =>
      rw [iff_true_right (by simp)]
      apply losesNothing_all hkept htexts
    | true =>
      simp only [↓reduceIte, or_true, forall_const]
      rw [losesNothing_deepCompress_iff hend hkept]
      . apply covers_incrementalSummarize_iff h
      . apply textsNonempty_incrementalSummarize htexts

theorem valid_compress (h : state.Valid messages.length) (hsafe : call.Safe config state messages.length)
    : (compress config call messages state).1.Valid messages.length := by
  unfold compress
  unfold Call.Safe at hsafe
  cases hlevel : call.level with
  | none => exact h
  | l1Prune => exact h
  | l2Summarize =>
    dsimp only
    split
    . next hclient => exact valid_incrementalSummarize h (hsafe (.inl hlevel) hclient)
    . exact h
  | l3DeepCompress =>
    dsimp only
    split
    . next hclient =>
      apply valid_deepCompress
      exact valid_incrementalSummarize h (hsafe (.inr hlevel) hclient)
    . exact h

/-
A run of compressions loses no message silently just when each call hands on all messages, or
summarizes those that it does not.
-/
theorem nothing_lost_iff_safe (config : Config) (calls : List Call)
    : (∀ e ∈ Machine.transcript (Conversation.step config) {} calls,
        LosesNothing config e.after.messages e.request.systemPrompt e.after.state e.reply)
        ↔
      ∀ e ∈ Machine.transcript (Conversation.step config) {} calls,
        e.request.Safe config e.before.state (e.before.messages ++ e.request.added).length := by
  apply @Machine.forall_transcript_iff Conversation Call CompressionResult (Conversation.step config)
    (fun conversation call =>
      call.Safe config conversation.state (conversation.messages ++ call.added).length)
    (fun conversation => conversation.state.Valid conversation.messages.length)
  . intro conversation call h
    have hvalid : conversation.state.Valid (conversation.messages ++ call.added).length := by
      apply h.mono
      simp
    refine ⟨?_, ?_⟩
    . apply losesNothing_compress_iff hvalid
    . apply valid_compress hvalid
  . apply CompressionState.valid_empty

def sixHellos : Call where
  added := List.replicate 6 { role := "user", content := "hello" }
  level := .l2Summarize
  systemPrompt := "prompt"
  hasClient := true
  chunkAnswer := fun _ => some "summary"
  deepAnswer := none

/--
Six messages are too few for a chunk of ten, but the first two of them are not handed on.
-/
theorem first_messages_lost
    : ¬ ∀ (config : Config) (calls : List Call),
        ∀ e ∈ Machine.transcript (Conversation.step config) {} calls,
          LosesNothing config e.after.messages e.request.systemPrompt e.after.state e.reply := by
  intro hclaim
  have hlost := hclaim (Config.default (·.length / 4)) [sixHellos] _ List.mem_cons_self
  have hfirst := (hlost.shown 0 (by decide +kernel)).1
  revert hfirst
  decide +kernel

end Run

end Context
end Agent
end MemStack
