import MemStack.Port.CoreError
import MemStack.Util.LineFeed
import MemStack.Util.Text
import MemStack.Util.Utf8

/-!
This module contains the completions that language models stream as server-sent events
(`adapters-http-llm`, `openai.rs` and `anthropic.rs`). The bytes arrive in chunks, and each line that carries data
holds one JSON value. The parser of JSON is given, as is the text of the error for bytes that are not UTF-8.
-/

namespace MemStack
namespace Llm
namespace EventStream

structure Serde (α : Type) where
  fromStr : String → Except String α
  utf8Error : List UInt8 → String

-- The content so far, and the fragments that `on_delta` was called with.
structure Streamed where
  content : String := ""
  deltas : List String := []
  deriving DecidableEq, Repr

def Streamed.push (s : Streamed) (delta : String) : Streamed where
  content := s.content ++ delta
  deltas := s.deltas ++ [delta]

def trimEndMatches (chars : List Char) (text : List Char) : List Char :=
  text.rdropWhile (· ∈ chars)

def stripPrefix? (pre text : List Char) : Option (List Char) :=
  if pre.isPrefixOf text then some (text.drop pre.length) else none

def payloadOf (text : List Char) : Option String :=
  (stripPrefix? "data:".toList (trimEndMatches ['\r', '\n'] text)).map fun payload =>
    String.ofList (payload.dropWhile Text.isWhitespace)

section OpenAi

structure ChatStreamDelta where
  content : Option String := none

structure ChatStreamChoice where
  delta : ChatStreamDelta := {}

structure ChatStreamChunk where
  choices : List ChatStreamChoice := []

def handleChoice (s : Streamed) (choice : ChatStreamChoice) : Streamed :=
  match choice.delta.content.filter (· ≠ "") with
  | none => s
  | some delta => s.push delta

variable (serde : Serde ChatStreamChunk)

def handleOpenaiStreamLine (line : List UInt8) (s : Streamed) : Streamed × Except CoreError Bool :=
  match Utf8.decode line with
  | none => (s, .error (.llm ("bad stream utf-8: " ++ serde.utf8Error line)))
  | some text =>
    match payloadOf text with
    | none => (s, .ok false)
    | some payload =>
      if payload = "[DONE]" then
        (s, .ok true)
      else if payload = "" then
        (s, .ok false)
      else
        match serde.fromStr payload with
        | .error e => (s, .error (.llm ("bad stream json: " ++ e)))
        | .ok chunk => (chunk.choices.foldl handleChoice s, .ok false)

def chatStream (chunks : List (List UInt8)) (failure : Option CoreError) : Streamed × Except CoreError Unit :=
  LineFeed.feed 10 (handleOpenaiStreamLine serde) {} [] chunks failure

end OpenAi

section Anthropic

structure AnthropicDelta where
  kind : String
  text : Option String := none

structure AnthropicError where
  kind : String
  message : String

structure AnthropicStreamEvent where
  kind : String
  delta : Option AnthropicDelta := none
  error : Option AnthropicError := none

def AnthropicStreamEvent.fragment (event : AnthropicStreamEvent) : Option String :=
  if event.kind = "content_block_delta" then
    event.delta.bind fun delta => if delta.kind = "text_delta" then delta.text.filter (· ≠ "") else none
  else
    none

variable (serde : Serde AnthropicStreamEvent)

def handleAnthropicStreamLine (line : List UInt8) (s : Streamed) : Streamed × Except CoreError Bool :=
  match Utf8.decode line with
  | none => (s, .error (.llm ("bad anthropic stream utf-8: " ++ serde.utf8Error line)))
  | some text =>
    match payloadOf text with
    | none => (s, .ok false)
    | some payload =>
      if payload = "" then
        (s, .ok false)
      else
        match serde.fromStr payload with
        | .error e => (s, .error (.llm ("bad anthropic stream json: " ++ e)))
        | .ok event =>
          match event.error with
          | some error =>
            (s, .error (.llm ("anthropic stream error " ++ error.kind ++ ": " ++ error.message)))
          | none =>
            if event.kind = "message_stop" then
              (s, .ok true)
            else
              match event.fragment with
              | none => (s, .ok false)
              | some text => (s.push text, .ok false)

def streamComplete (chunks : List (List UInt8)) (failure : Option CoreError) : Streamed × Except CoreError Unit :=
  LineFeed.feed 10 (handleAnthropicStreamLine serde) {} [] chunks failure

end Anthropic

def Streamed.of (fragments : List String) : Streamed where
  content := String.join fragments
  deltas := fragments

def ChatStreamChunk.fragments (chunk : ChatStreamChunk) : List String :=
  chunk.choices.filterMap fun choice => choice.delta.content.filter (· ≠ "")

inductive ServerLine (α : Type) where
  | data (text : String) (value : α)
  | other (text : String)

namespace ServerLine

variable {α : Type}

def text : ServerLine α → List Char
  | .data text _ => "data: ".toList ++ text.toList
  | .other text => text.toList

def fragments (of : α → List String) : ServerLine α → List String
  | .data _ value => of value
  | .other _ => []

def WellFormed (serde : Serde α) : ServerLine α → Prop
  | .data text value =>
    serde.fromStr text = .ok value ∧ '\n' ∉ text.toList ∧ (∃ c ∈ text.toList.head?, ¬Text.isWhitespace c) ∧
      text.toList.getLast? ≠ some '\r'
  | .other text => '\n' ∉ text.toList ∧ ¬"data:".toList <+: text.toList

def bytes (line : ServerLine α) : List UInt8 :=
  Utf8.encode line.text

end ServerLine

def written {α : Type} (lines : List (ServerLine α)) : List UInt8 :=
  ((lines.map (·.bytes)).map (· ++ [10])).flatten

section Lemmas

variable {α : Type} {s : Streamed} {text : List Char} {data : String} {serde : Serde α} {line : ServerLine α}

theorem encode_newline : String.utf8EncodeChar '\n' = [10] := by
  decide

theorem newline_notMem_encode (h : '\n' ∉ text) : 10 ∉ Utf8.encode text := by
  rw [Utf8.mem_encode_iff encode_newline]
  exact h

theorem decode_line (text : List Char) : Utf8.decode (Utf8.encode text ++ [10]) = some (text ++ ['\n']) := by
  have hbreak : Utf8.encode ['\n'] = [10] := by decide
  rw [← hbreak, ← Utf8.encode_append, Utf8.decode_encode]

theorem trimEndMatches_concat (h : ∀ c ∈ text.getLast?, c ∉ ['\r', '\n'])
    : trimEndMatches ['\r', '\n'] (text ++ ['\n']) = text := by
  unfold trimEndMatches
  rw [List.rdropWhile_concat_pos _ _ _ (by decide), List.rdropWhile_eq_self_iff]
  intro hne
  have hlast := h (text.getLast hne) (List.getLast?_eq_some_getLast hne)
  rw [decide_eq_true_eq]
  exact hlast

theorem payloadOf_data (hhead : ∃ c ∈ data.toList.head?, ¬Text.isWhitespace c) (hbreak : '\n' ∉ data.toList)
    (hlast : data.toList.getLast? ≠ some '\r')
    : payloadOf ("data: ".toList ++ data.toList ++ ['\n']) = some data := by
  obtain ⟨c, hc, hspace⟩ := hhead
  obtain ⟨rest, hdata⟩ := List.head?_eq_some_iff.mp hc
  have hend : ∀ d ∈ ("data: ".toList ++ data.toList).getLast?, d ∉ ['\r', '\n'] := by
    intro d hd
    rw [List.getLast?_append_of_ne_nil _ (by rw [hdata]; exact List.cons_ne_nil c rest)] at hd
    rw [List.mem_cons, List.mem_singleton, not_or]
    constructor
    . rintro rfl
      exact hlast hd
    . rintro rfl
      exact hbreak (List.mem_of_getLast? hd)
  unfold payloadOf
  rw [trimEndMatches_concat hend]
  have hstrip : stripPrefix? "data:".toList ("data: ".toList ++ data.toList) = some (' ' :: data.toList) := by
    rfl
  rw [hstrip, Option.map_some, List.dropWhile_cons_of_pos (by decide), hdata,
    List.dropWhile_cons_of_neg hspace, ← hdata, String.ofList_toList]

theorem payloadOf_other (h : ¬"data:".toList <+: text) : payloadOf (text ++ ['\n']) = none := by
  unfold payloadOf stripPrefix?
  rw [if_neg, Option.map_none]
  rw [List.isPrefixOf_iff_prefix]
  intro hprefix
  unfold trimEndMatches at hprefix
  rw [List.rdropWhile_concat_pos _ _ _ (by decide)] at hprefix
  exact h (List.IsPrefix.trans hprefix (List.rdropWhile_prefix _ _))

theorem ServerLine.WellFormed.notMem (h : line.WellFormed serde) : 10 ∉ line.bytes := by
  apply newline_notMem_encode
  cases line with
  | data text value =>
    unfold ServerLine.text
    rw [List.mem_append, not_or]
    exact ⟨by decide, h.2.1⟩
  | other text => exact h.1

theorem foldl_push (fragments : List String) (s : Streamed)
    : fragments.foldl Streamed.push s = ⟨fragments.foldl (· ++ ·) s.content, s.deltas ++ fragments⟩ := by
  induction fragments generalizing s with
  | nil =>
    rw [List.append_nil]
    rfl
  | cons fragment fragments ih =>
    rw [List.foldl_cons, ih]
    simp [Streamed.push]

theorem foldl_push_empty (fragments : List String) : fragments.foldl Streamed.push {} = Streamed.of fragments := by
  rw [foldl_push]
  rfl

theorem foldl_handleChoice (chunk : ChatStreamChunk) (s : Streamed)
    : chunk.choices.foldl handleChoice s = chunk.fragments.foldl Streamed.push s := by
  unfold ChatStreamChunk.fragments
  induction chunk.choices generalizing s with
  | nil => rfl
  | cons choice choices ih =>
    rw [List.foldl_cons, ih, List.filterMap_cons, handleChoice]
    cases choice.delta.content.filter (· ≠ "") <;> rfl

theorem handleAll_lines {handle : List UInt8 → Streamed → Streamed × Except CoreError Bool} {of : α → List String}
    {lines : List (ServerLine α)}
    (h : ∀ line ∈ lines, ∀ s, handle (line.bytes ++ [10]) s = ((line.fragments of).foldl Streamed.push s, .ok false))
    : LineFeed.handleAll handle s ((lines.map (·.bytes)).map (· ++ [10])) =
        ((lines.flatMap (·.fragments of)).foldl Streamed.push s, .ok false) := by
  induction lines generalizing s with
  | nil => rfl
  | cons line lines ih =>
    rw [List.forall_mem_cons] at h
    rw [List.map_cons, List.map_cons, LineFeed.handleAll, h.1]
    dsimp only
    rw [ih h.2, List.flatMap_cons, List.foldl_append]

end Lemmas

section OpenAi

variable (serde : Serde ChatStreamChunk)

theorem handleOpenaiStreamLine_line {line : ServerLine ChatStreamChunk} (h : line.WellFormed serde)
    (hdone : line.text ≠ "data: [DONE]".toList) (s : Streamed)
    : handleOpenaiStreamLine serde (line.bytes ++ [10]) s =
        ((line.fragments ChatStreamChunk.fragments).foldl Streamed.push s, .ok false) := by
  unfold handleOpenaiStreamLine ServerLine.bytes
  rw [decode_line]
  cases line with
  | other text =>
    dsimp only [ServerLine.text]
    rw [payloadOf_other h.2]
    rfl
  | data text chunk =>
    obtain ⟨hparse, hbreak, hhead, hlast⟩ := h
    have hne : text ≠ "[DONE]" := by
      rintro rfl
      exact hdone rfl
    have hempty : text ≠ "" := by
      rintro rfl
      obtain ⟨c, hc, -⟩ := hhead
      cases hc
    dsimp only [ServerLine.text]
    rw [payloadOf_data hhead hbreak hlast]
    dsimp only
    rw [if_neg hne, if_neg hempty, hparse]
    dsimp only
    rw [foldl_handleChoice]
    rfl

theorem handleOpenaiStreamLine_done (s : Streamed)
    : handleOpenaiStreamLine serde (Utf8.encode "data: [DONE]".toList ++ [10]) s = (s, .ok true) := by
  unfold handleOpenaiStreamLine
  rw [decode_line]
  have hpayload : payloadOf ("data: [DONE]".toList ++ ['\n']) = some "[DONE]" := by
    decide
  dsimp only
  rw [hpayload]
  rfl

/--
However the bytes of a completion are cut into chunks, each fragment that the server wrote is passed on once and in
its order, and the content is what they make up: up to `[DONE]`, whatever follows it, or to where the stream closes.
-/
theorem chatStream_written (lines : List (ServerLine ChatStreamChunk))
    (hlines : ∀ line ∈ lines, line.WellFormed serde ∧ line.text ≠ "data: [DONE]".toList)
    : (∀ chunks tail failure,
          chunks.flatten = written lines ++ (Utf8.encode "data: [DONE]".toList ++ 10 :: tail) →
          chatStream serde chunks failure =
            (Streamed.of (lines.flatMap (·.fragments ChatStreamChunk.fragments)), .ok ()))
        ∧ ∀ chunks, chunks.flatten = written lines →
          chatStream serde chunks none =
            (Streamed.of (lines.flatMap (·.fragments ChatStreamChunk.fragments)), .ok ()) := by
  have hbreaks : ∀ bytes ∈ lines.map (·.bytes), 10 ∉ bytes := by
    intro bytes hbytes
    obtain ⟨line, hline, rfl⟩ := List.mem_map.mp hbytes
    exact (hlines line hline).1.notMem
  have hall := handleAll_lines (s := {}) fun line hline s =>
    handleOpenaiStreamLine_line serde (hlines line hline).1 (hlines line hline).2 s
  rw [foldl_push_empty] at hall
  constructor
  . intro chunks tail failure hchunks
    exact LineFeed.feed_lines_stop hbreaks (newline_notMem_encode (by decide)) hall
      (handleOpenaiStreamLine_done serde _) hchunks
  . intro chunks hchunks
    exact LineFeed.feed_lines_close hbreaks hall hchunks

end OpenAi

section Anthropic

variable (serde : Serde AnthropicStreamEvent)

def AnthropicStreamEvent.GoesOn (event : AnthropicStreamEvent) : Prop :=
  event.error.isNone ∧ event.kind ≠ "message_stop"

def ServerLine.GoesOn : ServerLine AnthropicStreamEvent → Prop
  | .data _ event => event.GoesOn
  | .other _ => True

theorem handleAnthropicStreamLine_line {line : ServerLine AnthropicStreamEvent} (h : line.WellFormed serde)
    (hgoes : line.GoesOn) (s : Streamed)
    : handleAnthropicStreamLine serde (line.bytes ++ [10]) s =
        ((line.fragments fun event => event.fragment.toList).foldl Streamed.push s, .ok false) := by
  unfold handleAnthropicStreamLine ServerLine.bytes
  rw [decode_line]
  cases line with
  | other text =>
    dsimp only [ServerLine.text]
    rw [payloadOf_other h.2]
    rfl
  | data text event =>
    obtain ⟨hparse, hbreak, hhead, hlast⟩ := h
    obtain ⟨herror, hkind⟩ := hgoes
    have hempty : text ≠ "" := by
      rintro rfl
      obtain ⟨c, hc, -⟩ := hhead
      cases hc
    dsimp only [ServerLine.text]
    rw [payloadOf_data hhead hbreak hlast]
    dsimp only
    rw [if_neg hempty, hparse]
    dsimp only
    rw [Option.isNone_iff_eq_none.mp herror]
    dsimp only
    rw [if_neg hkind]
    dsimp only [ServerLine.fragments]
    cases event.fragment <;> rfl

theorem handleAnthropicStreamLine_stop {text : String} {event : AnthropicStreamEvent}
    (h : (ServerLine.data text event).WellFormed serde) (herror : event.error.isNone)
    (hkind : event.kind = "message_stop") (s : Streamed)
    : handleAnthropicStreamLine serde ((ServerLine.data text event).bytes ++ [10]) s = (s, .ok true) := by
  obtain ⟨hparse, hbreak, hhead, hlast⟩ := h
  have hempty : text ≠ "" := by
    rintro rfl
    obtain ⟨c, hc, -⟩ := hhead
    cases hc
  unfold handleAnthropicStreamLine ServerLine.bytes
  rw [decode_line]
  dsimp only [ServerLine.text]
  rw [payloadOf_data hhead hbreak hlast]
  dsimp only
  rw [if_neg hempty, hparse]
  dsimp only
  rw [Option.isNone_iff_eq_none.mp herror]
  exact if_pos hkind

/--
However the bytes of a message are cut into chunks, each text that the server wrote is passed on once and in its
order, and the content is what they make up: up to the event that stops the message, whatever follows it, or to
where the stream closes.
-/
theorem streamComplete_written (lines : List (ServerLine AnthropicStreamEvent))
    (hlines : ∀ line ∈ lines, line.WellFormed serde ∧ line.GoesOn)
    : (∀ text event chunks tail failure, (ServerLine.data text event).WellFormed serde → event.error.isNone →
          event.kind = "message_stop" →
          chunks.flatten = written lines ++ ((ServerLine.data text event).bytes ++ 10 :: tail) →
          streamComplete serde chunks failure =
            (Streamed.of (lines.flatMap (·.fragments fun event => event.fragment.toList)), .ok ()))
        ∧ ∀ chunks, chunks.flatten = written lines →
          streamComplete serde chunks none =
            (Streamed.of (lines.flatMap (·.fragments fun event => event.fragment.toList)), .ok ()) := by
  have hbreaks : ∀ bytes ∈ lines.map (·.bytes), 10 ∉ bytes := by
    intro bytes hbytes
    obtain ⟨line, hline, rfl⟩ := List.mem_map.mp hbytes
    exact (hlines line hline).1.notMem
  have hall := handleAll_lines (s := {}) fun line hline s =>
    handleAnthropicStreamLine_line serde (hlines line hline).1 (hlines line hline).2 s
  rw [foldl_push_empty] at hall
  constructor
  . intro text event chunks tail failure hwell herror hkind hchunks
    exact LineFeed.feed_lines_stop hbreaks hwell.notMem hall (handleAnthropicStreamLine_stop serde hwell herror hkind _)
      hchunks
  . intro chunks hchunks
    exact LineFeed.feed_lines_close hbreaks hall hchunks

end Anthropic

section Streams

variable {handle : List UInt8 → Streamed → Streamed × Except CoreError Bool}

def Streamed.Assembled (s : Streamed) : Prop :=
  s = Streamed.of s.deltas ∧ "" ∉ s.deltas

theorem Streamed.Assembled.push {s : Streamed} (h : s.Assembled) {delta : String} (hdelta : delta ≠ "")
    : (s.push delta).Assembled := by
  constructor
  . rw [h.1]
    simp [Streamed.push, Streamed.of, String.join]
  . show "" ∉ s.deltas ++ [delta]
    rw [List.mem_append, List.mem_singleton, not_or]
    exact ⟨h.2, hdelta.symm⟩

theorem Streamed.Assembled.foldl_push {s : Streamed} (h : s.Assembled) {fragments : List String}
    (hfragments : "" ∉ fragments)
    : (fragments.foldl Streamed.push s).Assembled := by
  induction fragments generalizing s with
  | nil => exact h
  | cons fragment fragments ih =>
    rw [List.mem_cons, not_or] at hfragments
    exact ih (h.push (Ne.symm hfragments.1)) hfragments.2

theorem assembled_handleOpenaiStreamLine (serde : Serde ChatStreamChunk) (line : List UInt8) (s : Streamed)
    (h : s.Assembled) : (handleOpenaiStreamLine serde line s).1.Assembled := by
  unfold handleOpenaiStreamLine
  repeat' split
  . exact h
  . exact h
  . exact h
  . exact h
  . exact h
  . next chunk _ =>
    rw [foldl_handleChoice]
    apply h.foldl_push
    intro hempty
    obtain ⟨choice, -, hchoice⟩ := List.mem_filterMap.mp hempty
    have hne := (Option.filter_eq_some_iff.mp hchoice).2
    exact absurd hne (by decide)

theorem assembled_handleAnthropicStreamLine (serde : Serde AnthropicStreamEvent) (line : List UInt8) (s : Streamed)
    (h : s.Assembled) : (handleAnthropicStreamLine serde line s).1.Assembled := by
  unfold handleAnthropicStreamLine
  repeat' split
  . exact h
  . exact h
  . exact h
  . exact h
  . exact h
  . exact h
  . exact h
  . next text hfragment =>
    apply h.push
    rintro rfl
    unfold AnthropicStreamEvent.fragment at hfragment
    split at hfragment
    . obtain ⟨delta, -, hdelta⟩ := Option.bind_eq_some_iff.mp hfragment
      split at hdelta
      . have hne := (Option.filter_eq_some_iff.mp hdelta).2
        exact absurd hne (by decide)
      . cases hdelta
    . cases hfragment

/--
What a stream of bytes comes to does not depend on how it was cut into chunks, and the content is always what the
fragments that were passed on make up, also where the stream is malformed or fails.
-/
theorem streams_cut_free (openai : Serde ChatStreamChunk) (anthropic : Serde AnthropicStreamEvent)
    {chunks chunks' : List (List UInt8)} (h : chunks.flatten = chunks'.flatten) (failure : Option CoreError)
    : chatStream openai chunks failure = chatStream openai chunks' failure ∧
        streamComplete anthropic chunks failure = streamComplete anthropic chunks' failure ∧
        (chatStream openai chunks failure).1.Assembled ∧ (streamComplete anthropic chunks failure).1.Assembled := by
  have hstart : Streamed.Assembled {} := ⟨rfl, List.not_mem_nil⟩
  exact ⟨LineFeed.feed_congr h, LineFeed.feed_congr h,
    LineFeed.inv_feed (assembled_handleOpenaiStreamLine openai) hstart [] chunks failure,
    LineFeed.inv_feed (assembled_handleAnthropicStreamLine anthropic) hstart [] chunks failure⟩

end Streams

section Example

def firstChunk : String :=
  "\x7b\"choices\":[\x7b\"delta\":\x7b\"content\":\"Hel\"\x7d\x7d]\x7d"

def secondChunk : String :=
  "\x7b\"choices\":[\x7b\"delta\":\x7b\"content\":\"lo\"\x7d\x7d]\x7d"

def exampleChat : Serde ChatStreamChunk where
  fromStr text :=
    if text = firstChunk then
      .ok { choices := [{ delta := { content := some "Hel" } }] }
    else if text = secondChunk then
      .ok { choices := [{ delta := { content := some "lo" } }] }
    else
      .error "expected value"
  utf8Error _ := "invalid utf-8 sequence"

def exampleCompletion : List (ServerLine ChatStreamChunk) :=
  [.other ": keep-alive", .data firstChunk { choices := [{ delta := { content := some "Hel" } }] }, .other "",
    .data secondChunk { choices := [{ delta := { content := some "lo" } }] }, .other ""]

theorem exampleCompletion_wellFormed
    : ∀ line ∈ exampleCompletion, line.WellFormed exampleChat ∧ line.text ≠ "data: [DONE]".toList := by
  unfold exampleCompletion
  simp only [List.forall_mem_cons]
  refine ⟨⟨⟨by decide, by decide⟩, by decide⟩, ⟨⟨rfl, by decide, ⟨_, rfl, by decide⟩, by decide⟩, by decide⟩,
    ⟨⟨by decide, by decide⟩, by decide⟩, ⟨⟨by rfl, by decide, ⟨_, rfl, by decide⟩, by decide⟩, by decide⟩,
    ⟨⟨by decide, by decide⟩, by decide⟩, by simp⟩

theorem chatStream_hello
    : chatStream exampleChat [(written exampleCompletion).take 25, (written exampleCompletion).drop 25] none =
        (Streamed.of ["Hel", "lo"], .ok ()) :=
  (chatStream_written exampleChat exampleCompletion exampleCompletion_wellFormed).2 _ (by simp)

def textEvent : String :=
  "\x7b\"type\":\"content_block_delta\",\"delta\":\x7b\"type\":\"text_delta\",\"text\":\"Hello\"\x7d\x7d"

def stopText : String :=
  "\x7b\"type\":\"message_stop\"\x7d"

def exampleMessage : Serde AnthropicStreamEvent where
  fromStr text :=
    if text = stopText then
      .ok { kind := "message_stop" }
    else if text = textEvent then
      .ok { kind := "content_block_delta", delta := some { kind := "text_delta", text := some "Hello" } }
    else
      .error "expected value"
  utf8Error _ := "invalid utf-8 sequence"

def exampleEvents : List (ServerLine AnthropicStreamEvent) :=
  [.other "event: content_block_delta",
    .data textEvent
      { kind := "content_block_delta", delta := some { kind := "text_delta", text := some "Hello" } },
    .other "", .other "event: message_stop"]

def stopEvent : ServerLine AnthropicStreamEvent :=
  .data stopText { kind := "message_stop" }

theorem streamComplete_hello
    : streamComplete exampleMessage [written exampleEvents, stopEvent.bytes, [10, 255]] none =
        (Streamed.of ["Hello"], .ok ()) := by
  have hlines : ∀ line ∈ exampleEvents, line.WellFormed exampleMessage ∧ line.GoesOn := by
    unfold exampleEvents
    simp only [List.forall_mem_cons]
    exact ⟨⟨⟨by decide, by decide⟩, trivial⟩, ⟨⟨by rfl, by decide, ⟨_, rfl, by decide⟩, by decide⟩, rfl, by decide⟩,
      ⟨⟨by decide, by decide⟩, trivial⟩, ⟨⟨by decide, by decide⟩, trivial⟩, by simp⟩
  exact (streamComplete_written exampleMessage exampleEvents hlines).1 stopText { kind := "message_stop" } _ [255] none
    ⟨by rfl, by decide, ⟨_, rfl, by decide⟩, by decide⟩ rfl rfl (by simp [stopEvent])

theorem streams_cut_free_example
    : let bytes := written exampleCompletion
      chatStream exampleChat [bytes] none = chatStream exampleChat [bytes.take 25, bytes.drop 25] none :=
  (streams_cut_free exampleChat exampleMessage (by simp) none).1

end Example

end EventStream
end Llm
end MemStack
