import MemStack.Util.Machine

/-!
This module contains the compression of a conversation (`agent/context/compression_engine.py` and
`compression_state.py`). What the language model answers and the estimate of tokens are inputs. The
prompts, token counts, times and the history of compressions are left out.
-/

namespace MemStack
namespace Agent
namespace Context

inductive CompressionLevel where
  | none
  | l1Prune
  | l2Summarize
  | l3DeepCompress
  deriving DecidableEq, Repr

structure Message where
  role : String
  name : String := ""
  content : String
  deriving DecidableEq, Repr

structure Config where
  chunkSize : Nat
  estimateTokens : String → Nat
  pruneMinTokens : Nat
  pruneProtectTokens : Nat
  pruneProtectedTools : List String
  assistantTruncateChars : Nat
  chunkSize_pos : 0 < chunkSize

def Config.default (estimateTokens : String → Nat) : Config where
  chunkSize := 10
  estimateTokens := estimateTokens
  pruneMinTokens := 20000
  pruneProtectTokens := 40000
  pruneProtectedTools := ["skill"]
  assistantTruncateChars := 2000
  chunkSize_pos := by decide

structure SummaryChunk where
  summaryText : String
  messageStartIndex : Nat
  messageEndIndex : Nat
  deriving DecidableEq, Repr

structure GlobalSummary where
  text : String
  absorbed : Nat → Bool

structure CompressionState where
  summaryChunks : List SummaryChunk := []
  globalSummary : Option GlobalSummary := none
  messagesSummarizedUpTo : Nat := 0

namespace CompressionState

variable (state : CompressionState)

def getCombinedSummary : Option String :=
  match state.globalSummary.filter (·.text ≠ "") with
  | some summary => some summary.text
  | none =>
    if state.summaryChunks = [] then none
    else some ("\n\n".intercalate (state.summaryChunks.map (·.summaryText)))

def covers (i : Nat) : Bool :=
  match state.globalSummary.filter (·.text ≠ "") with
  | some summary => summary.absorbed i
  | none => state.summaryChunks.any fun chunk => chunk.messageStartIndex ≤ i && i < chunk.messageEndIndex

def addSummaryChunk (chunk : SummaryChunk) : CompressionState :=
  { state with
    summaryChunks := state.summaryChunks ++ [chunk]
    messagesSummarizedUpTo := chunk.messageEndIndex
  }

def setGlobalSummary (summary : GlobalSummary) : CompressionState :=
  { state with globalSummary := some summary }

end CompressionState

section Prune

variable (config : Config)

inductive PruneKind where
  | tool
  | assistant
  deriving DecidableEq, Repr

structure Scan where
  turns : Nat := 0
  totalToolTokens : Nat := 0
  prunableTokens : Nat := 0
  candidates : List (Nat × PruneKind) := []

def truncated (content : String) : String :=
  String.ofList (content.toList.take config.assistantTruncateChars)

def scanStep (scan : Scan) (t : Message × Nat) : Scan :=
  let scan := if t.1.role = "user" then { scan with turns := scan.turns + 1 } else scan
  if scan.turns < 2 then
    scan
  else if t.1.role = "tool" then
    let tokens := config.estimateTokens t.1.content
    let scan := { scan with totalToolTokens := scan.totalToolTokens + tokens }
    if t.1.name ∈ config.pruneProtectedTools then
      scan
    else if config.pruneProtectTokens < scan.totalToolTokens then
      { scan with
        prunableTokens := scan.prunableTokens + tokens
        candidates := scan.candidates ++ [(t.2, .tool)]
      }
    else
      scan
  else if t.1.role = "assistant" ∧ config.assistantTruncateChars < t.1.content.length then
    let tokens := config.estimateTokens t.1.content
    let kept := config.estimateTokens (truncated config t.1.content)
    if kept < tokens then
      { scan with
        prunableTokens := scan.prunableTokens + (tokens - kept)
        candidates := scan.candidates ++ [(t.2, .assistant)]
      }
    else
      scan
  else
    scan

def scanPruneCandidates (messages : List Message) : Scan :=
  messages.zipIdx.reverse.foldl (scanStep config) {}

def Message.pruned (message : Message) : PruneKind → Message
  | .tool => { message with content := "[Output compacted to save tokens]" }
  | .assistant => { message with
      content := truncated config message.content ++ "\n[... response truncated to save tokens]" }

def applyPruning (messages : List Message) (candidates : List (Nat × PruneKind)) : List Message :=
  messages.zipIdx.map fun t =>
    match candidates.lookup t.2 with
    | some kind => t.1.pruned config kind
    | none => t.1

def pruneToolOutputs (messages : List Message) : List Message :=
  let scan := scanPruneCandidates config messages
  if scan.prunableTokens < config.pruneMinTokens then messages
  else applyPruning config messages scan.candidates

end Prune

structure Call where
  added : List Message
  level : CompressionLevel
  systemPrompt : String
  hasClient : Bool
  chunkAnswer : Nat → Option String
  deepAnswer : Option String

structure CompressionResult where
  system : Option String
  messages : List Message
  summary : Option String

def buildCompressedOutput (systemPrompt : String) (summary : Option String) (messages : List Message)
    : CompressionResult :=
  let content := match summary.filter (· ≠ "") with
    | some summary => systemPrompt ++ "\n\n[Previous conversation summary]\n" ++ summary
    | none => systemPrompt
  { system := if content = "" then none else some content, messages, summary }

section Summarize

variable (config : Config) (count : Nat)

def endIdx (state : CompressionState) : Nat :=
  max state.messagesSummarizedUpTo (count - max (count / 4) 4)

def chunkStarts (unsummarized : Nat) : List Nat :=
  List.range' 0 ((unsummarized + config.chunkSize - 1) / config.chunkSize) config.chunkSize

def summarizeChunks (startIdx unsummarized : Nat) (answer : Nat → Option String)
    : List Nat → CompressionState → CompressionState
  | [], state => state
  | chunkStart :: starts, state =>
    let chunkEnd := min (chunkStart + config.chunkSize) unsummarized
    if chunkEnd - chunkStart < 3 then
      state
    else
      match answer chunkStart with
      | none => state
      | some text =>
        let state := if text = "" then state else
          state.addSummaryChunk {
            summaryText := text
            messageStartIndex := startIdx + chunkStart
            messageEndIndex := startIdx + chunkEnd
          }
        summarizeChunks startIdx unsummarized answer starts state

def incrementalSummarize (answer : Nat → Option String) (state : CompressionState) : CompressionState :=
  let startIdx := state.messagesSummarizedUpTo
  let unsummarized := endIdx count state - startIdx
  if unsummarized < config.chunkSize then
    state
  else
    summarizeChunks config startIdx unsummarized answer (chunkStarts config unsummarized) state

end Summarize

def deepCompress (answer : Option String) (count : Nat) (messages : List Message)
    (state : CompressionState) : CompressionState × List Message × Option String :=
  match answer.filter (· ≠ "") with
  | some text =>
    let first := count - messages.length
    let summary := { text, absorbed := fun i => state.covers i || (first ≤ i && i < count) }
    (state.setGlobalSummary summary, messages.drop (messages.length - min 4 messages.length), some text)
  | none => (state, messages, state.getCombinedSummary)

def compress (config : Config) (call : Call) (messages : List Message) (state : CompressionState)
    : CompressionState × CompressionResult :=
  let count := messages.length
  match call.level with
  | .none => (state, buildCompressedOutput call.systemPrompt none messages)
  | .l1Prune =>
    (state, buildCompressedOutput call.systemPrompt none (pruneToolOutputs config messages))
  | .l2Summarize =>
    let messages := pruneToolOutputs config messages
    if call.hasClient then
      let rest := messages.drop (endIdx count state)
      let state := incrementalSummarize config count call.chunkAnswer state
      (state, buildCompressedOutput call.systemPrompt state.getCombinedSummary rest)
    else
      (state, buildCompressedOutput call.systemPrompt none messages)
  | .l3DeepCompress =>
    let messages := pruneToolOutputs config messages
    if call.hasClient then
      let rest := messages.drop (endIdx count state)
      let state := incrementalSummarize config count call.chunkAnswer state
      let (state, rest, summary) := deepCompress call.deepAnswer count rest state
      (state, buildCompressedOutput call.systemPrompt summary rest)
    else
      (state, buildCompressedOutput call.systemPrompt none messages)

structure Conversation where
  messages : List Message := []
  state : CompressionState := {}

def Conversation.step (config : Config) (conversation : Conversation) (call : Call)
    : Conversation × CompressionResult :=
  let messages := conversation.messages ++ call.added
  let (state, result) := compress config call messages conversation.state
  ({ messages, state }, result)

end Context
end Agent
end MemStack
