import MemStack.Util.Utf8

/-!
This module contains the truncation of what a tool has to say (`agent/tools/truncation.py`), by bytes and by
lines, and the reading of lines page by page, where each page begins after the last line of the one before. The path
to which the full output is saved is given. Limits are not negative.
-/

namespace MemStack
namespace Agent
namespace Truncation

open Utf8

structure TruncationResult where
  truncated : Bool := false
  output : String := ""
  truncatedBytes : Option Nat := none
  truncatedLines : Option Nat := none
  totalLines : Option Nat := none
  lastReadLine : Option Nat := none
  hasMore : Bool := false
  deriving DecidableEq, Repr

structure ToolResult where
  output : String
  wasTruncated : Bool := false
  originalBytes : Option Nat := none
  fullOutputPath : Option String := none
  deriving DecidableEq, Repr

inductive TruncateDirection where
  | head
  | tail
  deriving DecidableEq, Repr

def truncateByBytes (content : String) (maxBytes : Nat) : TruncationResult :=
  if content = "" then
    {}
  else
    let contentBytes := encode content.toList
    if contentBytes.length ≤ maxBytes then
      { output := content }
    else
      let truncatedBytes := contentBytes.take maxBytes
      let truncatedContent :=
        match decode truncatedBytes with
        | some l => l
        | none => decodeIgnore truncatedBytes
      {
        truncated := true
        output := String.ofList truncatedContent
        truncatedBytes := some (contentBytes.length - maxBytes)
      }

def shorten (maxLineLength : Nat) (line : String) : String :=
  if maxLineLength < line.length then String.ofList (line.toList.take maxLineLength) ++ "..." else line

-- The format `5d`.
def padded (n : Nat) : String :=
  String.ofList (List.replicate (5 - (toString n).length) ' ') ++ toString n

def numbered (line : Nat × String) : String :=
  padded line.1 ++ "| " ++ line.2

def buildTruncationHint (fullPath : String) (totalLines totalBytes : Nat) : String :=
  s!"[Output truncated: {totalLines} lines, {totalBytes} bytes. " ++
    s!"Full output saved to {fullPath}. " ++
    "Use grep to search or read with offset/limit to view " ++
    "specific sections.]"

-- `bytes[-n:]`.
def lastBytes (n : Nat) (bytes : List UInt8) : List UInt8 :=
  if n = 0 then bytes else bytes.drop (bytes.length - n)

def totalLinesOf (output : String) : Nat :=
  output.toList.count '\n' + 1

def truncateToResult (maxBytes : Nat) (fullPath output : String) (direction : TruncateDirection) : ToolResult :=
  if output = "" then
    { output := "" }
  else
    let contentBytes := encode output.toList
    let totalBytes := contentBytes.length
    if totalBytes ≤ maxBytes then
      { output }
    else
      let truncatedBytes :=
        match direction with
        | .tail => lastBytes maxBytes contentBytes
        | .head => contentBytes.take maxBytes
      let truncatedContent := String.ofList (decodeIgnore truncatedBytes)
      let hint := buildTruncationHint fullPath (totalLinesOf output) totalBytes
      {
        output :=
          match direction with
          | .tail => hint ++ "\n...\n" ++ truncatedContent
          | .head => truncatedContent ++ "\n...\n" ++ hint
        wasTruncated := true
        originalBytes := some totalBytes
        fullOutputPath := some fullPath
      }

section Longest

variable {content fullPath : String} {maxBytes : Nat} (hlong : maxBytes < (encode content.toList).length)
include hlong

theorem ne_empty_of_lt : content ≠ "" := by
  rintro rfl
  exact Nat.not_lt_zero _ hlong

theorem truncateByBytes_of_lt
    : (truncateByBytes content maxBytes).truncated = true ∧
        (truncateByBytes content maxBytes).output.toList =
          decodeIgnore ((encode content.toList).take maxBytes) := by
  unfold truncateByBytes
  rw [if_neg (ne_empty_of_lt hlong)]
  dsimp only
  rw [if_neg (Nat.not_le.mpr hlong)]
  refine ⟨rfl, ?_⟩
  dsimp only
  rw [String.toList_ofList]
  split
  . next l hdecode => exact (decodeIgnoreFrom_of_decodeFrom hdecode).symm
  . rfl

theorem truncateToResult_of_lt (direction : TruncateDirection)
    : (truncateToResult maxBytes fullPath content direction).output =
        match direction with
        | .tail => buildTruncationHint fullPath (totalLinesOf content) (encode content.toList).length ++ "\n...\n" ++
          String.ofList (decodeIgnore (lastBytes maxBytes (encode content.toList)))
        | .head => String.ofList (decodeIgnore ((encode content.toList).take maxBytes)) ++ "\n...\n" ++
          buildTruncationHint fullPath (totalLinesOf content) (encode content.toList).length := by
  unfold truncateToResult
  rw [if_neg (ne_empty_of_lt hlong)]
  dsimp only
  rw [if_neg (Nat.not_le.mpr hlong)]
  cases direction <;> rfl

theorem isLongestSuffix_lastBytes (hmax : 1 ≤ maxBytes)
    : IsLongestSuffix maxBytes content.toList (decodeIgnore (lastBytes maxBytes (encode content.toList))) := by
  unfold lastBytes
  rw [if_neg (by omega)]
  apply isLongestSuffix_drop
  unfold size
  omega

end Longest

/--
What is kept of an output that is too long are as many characters as fit.
-/
theorem truncation_keeps_longest (content fullPath : String) {maxBytes : Nat} (hmax : 1 ≤ maxBytes)
    (hlong : maxBytes < (encode content.toList).length)
    : ((truncateByBytes content maxBytes).truncated = true ∧
        IsLongestPrefix maxBytes content.toList (truncateByBytes content maxBytes).output.toList) ∧
      (∃ kept, IsLongestPrefix maxBytes content.toList kept.toList ∧
        (truncateToResult maxBytes fullPath content .head).output = kept ++ "\n...\n" ++
          buildTruncationHint fullPath (totalLinesOf content) (encode content.toList).length) ∧
      ∃ kept, IsLongestSuffix maxBytes content.toList kept.toList ∧
        (truncateToResult maxBytes fullPath content .tail).output =
          buildTruncationHint fullPath (totalLinesOf content) (encode content.toList).length ++ "\n...\n" ++
            kept := by
  obtain ⟨htruncated, houtput⟩ := truncateByBytes_of_lt hlong
  have hprefix := isLongestPrefix_take (n := maxBytes) (l := content.toList)
  refine ⟨⟨htruncated, ?_⟩, ⟨String.ofList (decodeIgnore ((encode content.toList).take maxBytes)), ?_, ?_⟩,
    String.ofList (decodeIgnore (lastBytes maxBytes (encode content.toList))), ?_, ?_⟩
  . rw [houtput]
    exact hprefix
  . rw [String.toList_ofList]
    exact hprefix
  . exact truncateToResult_of_lt hlong .head
  . rw [String.toList_ofList]
    exact isLongestSuffix_lastBytes hlong hmax
  . exact truncateToResult_of_lt hlong .tail

theorem truncation_keeps_umlaut
    : ((truncateByBytes "ü😀" 3).truncated = true ∧
        IsLongestPrefix 3 "ü😀".toList (truncateByBytes "ü😀" 3).output.toList) ∧
      (∃ kept, IsLongestPrefix 3 "ü😀".toList kept.toList ∧
        (truncateToResult 3 "/tmp/1.txt" "ü😀" .head).output = kept ++ "\n...\n" ++
          buildTruncationHint "/tmp/1.txt" 1 6) ∧
      ∃ kept, IsLongestSuffix 3 "ü😀".toList kept.toList ∧
        (truncateToResult 3 "/tmp/1.txt" "ü😀" .tail).output =
          buildTruncationHint "/tmp/1.txt" 1 6 ++ "\n...\n" ++ kept :=
  truncation_keeps_longest "ü😀" "/tmp/1.txt" (by decide) (by decide)

open Utf8

variable {lines todo processed : List String} {line : String}
  {offset limit maxBytes maxLineLength bytes fuel : Nat}

end Truncation
end Agent
end MemStack
