import MemStack.Agent.Context.Compression
import MemStack.Util.Dict
import MemStack.Util.Json

/-!
This module contains the pruning of old tool outputs and long answers (`_prune_tool_outputs` of
`agent/context/compression_engine.py`) on messages with all their fields, and the estimate of their tokens
(`agent/context/window_manager.py`). A `none` is an error that is raised because a field has a wrong type.
-/

namespace MemStack
namespace Agent
namespace Context
namespace Pruning

variable {F : Type}

abbrev RawMessage (F : Type) := Dict String (Json F)

structure PruneConfig where
  charsPerToken : ℚ := 4
  pruneMinTokens : Option Int := none
  pruneProtectTokens : Option Int := none
  pruneProtectedTools : Option (List String) := none
  assistantTruncateChars : Int := 2000
  charsPerToken_pos : 0 < charsPerToken := by norm_num

namespace PruneConfig

variable (config : PruneConfig)

def minTokens : Int :=
  config.pruneMinTokens.getD 20000

def protectTokens : Int :=
  config.pruneProtectTokens.getD 40000

def protectedTools : List String :=
  config.pruneProtectedTools.getD ["skill"]

end PruneConfig

section Estimate

variable (config : PruneConfig)

def isCjk (c : Char) : Bool :=
  let n := c.toNat
  (0x4e00 ≤ n && n ≤ 0x9fff) || (0x3400 ≤ n && n ≤ 0x4dbf) || (0xac00 ≤ n && n ≤ 0xd7af)

-- `int(char_count / chars_per_token)`
def quotient (charCount : Nat) (charsPerToken : ℚ) : Nat :=
  charCount * charsPerToken.den / charsPerToken.num.toNat

def textTokens (text : String) : Nat :=
  let charCount := text.length
  let cjkChars := text.toList.countP isCjk
  if 3 * charCount < 10 * cjkChars then quotient charCount 2
  else if charCount < 10 * cjkChars then quotient charCount 3
  else quotient charCount config.charsPerToken

-- `message.get(key, "")`
def field (message : RawMessage F) (key : String) : Json F :=
  (message.get key).getD (.str "")

def hasRole (message : RawMessage F) (role : String) : Bool :=
  (message.get "role").bind Json.asStr = some role

variable [PyFloat F]

def estimateTokens : Json F → Option Nat
  | .str text => some (textTokens config text)
  | value => if value.truthy then none else some 0

def partTokens : Json F → Option Nat
  | .dict part =>
    let kind := (Json.get part "type").bind Json.asStr
    if kind = some "text" then estimateTokens config ((Json.get part "text").getD (.str ""))
    else if kind = some "image_url" then some 85
    else some 0
  | _ => some 0

def contentTokens : Json F → Option Nat
  | .str text => some (textTokens config text)
  | .list parts => (parts.mapM (partTokens config)).map List.sum
  | _ => some 0

def callTokens : Json F → Option Nat
  | .dict call =>
    match (Json.get call "function").getD (.dict []) with
    | .dict function => do
      let name ← estimateTokens config ((Json.get function "name").getD (.str ""))
      let arguments ← estimateTokens config ((Json.get function "arguments").getD (.str ""))
      return name + arguments + 10
    | _ => none
  | _ => none

def toolCallTokens : Json F → Option Nat
  | .list calls => (calls.mapM (callTokens config)).map List.sum
  | .str text => if text = "" then some 0 else none
  | .dict entries => if entries.isEmpty then some 0 else none
  | _ => none

def messageTokens (message : RawMessage F) : Option Nat := do
  let content ← contentTokens config (field message "content")
  let calls ← toolCallTokens config ((message.get "tool_calls").getD (.list []))
  let role ← estimateTokens config (field message "role")
  let name ← estimateTokens config (field message "name")
  return 4 + content + calls + role + name

def messagesTokens (messages : List (RawMessage F)) : Option Nat :=
  (messages.mapM (messageTokens config)).map List.sum

end Estimate

section Prune

variable (config : PruneConfig)

-- `text[:stop]`
def slice (text : String) (stop : Int) : String :=
  String.ofList (text.toList.take (if 0 ≤ stop then stop.toNat else text.length - (-stop).toNat))

-- `name in protected_tools`, which fails for what cannot be hashed.
def isProtected : Json F → Option Bool
  | .str name => some (name ∈ config.protectedTools)
  | .list _ => none
  | .dict _ => none
  | _ => some false

def newContent (message : RawMessage F) : PruneKind → String
  | .tool => "[Output compacted to save tokens]"
  | .assistant =>
    slice (((field message "content").asStr).getD "") config.assistantTruncateChars ++
      "\n[... response truncated to save tokens]"

def pruned (message : RawMessage F) (kind : PruneKind) : RawMessage F :=
  message.set "content" (.str (newContent config message kind))

structure Scan (F : Type) where
  turns : Nat := 0
  totalToolTokens : Nat := 0
  prunableTokens : Nat := 0
  candidates : List (Nat × RawMessage F × PruneKind) := []

def applyPruning (messages : List (RawMessage F)) (candidates : List (Nat × RawMessage F × PruneKind))
    : List (RawMessage F) × Nat :=
  candidates.foldl (fun result c => (result.1.set c.1 (pruned config c.2.1 c.2.2), result.2 + 1)) (messages, 0)

variable [PyFloat F]

def scanStep (scan : Scan F) (t : RawMessage F × Nat) : Option (Scan F) :=
  let scan := if hasRole t.1 "user" then { scan with turns := scan.turns + 1 } else scan
  if scan.turns < 2 then
    some scan
  else if hasRole t.1 "tool" then do
    let tokens ← estimateTokens config (field t.1 "content")
    let scan := { scan with totalToolTokens := scan.totalToolTokens + tokens }
    if ← isProtected config (field t.1 "name") then
      some scan
    else if config.protectTokens < scan.totalToolTokens then
      some { scan with
        prunableTokens := scan.prunableTokens + tokens
        candidates := scan.candidates ++ [(t.2, t.1, .tool)]
      }
    else
      some scan
  else if hasRole t.1 "assistant" then
    match field t.1 "content" with
    | .str content =>
      let tokens := textTokens config content
      let kept := textTokens config (slice content config.assistantTruncateChars)
      if config.assistantTruncateChars < content.length ∧ kept < tokens then
        some { scan with
          prunableTokens := scan.prunableTokens + (tokens - kept)
          candidates := scan.candidates ++ [(t.2, t.1, .assistant)]
        }
      else
        some scan
    | _ => some scan
  else
    some scan

def scanPruneCandidates (messages : List (RawMessage F)) : Option (Scan F) :=
  messages.zipIdx.reverse.foldlM (scanStep config) {}

def pruneToolOutputs (messages : List (RawMessage F)) : Option (List (RawMessage F) × Nat) := do
  let scan ← scanPruneCandidates config messages
  if (scan.prunableTokens : Int) < config.minTokens then return (messages, 0)
  else return applyPruning config messages scan.candidates

end Prune

end Pruning
end Context
end Agent
end MemStack
