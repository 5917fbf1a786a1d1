import MemStack.Util.Lines
import MemStack.Util.Substitution
import MemStack.Util.Text

/-!
This module contains the tool that applies a patch to a file (`sandbox-mcp-server/src/tools/file_tools.py`),
from the content of the file to the content that is written. The texts are lists of characters.
-/

namespace MemStack
namespace Sandbox
namespace Patch

section Lines

-- Where `str.splitlines` ends a line.
def isLineBoundary (c : Char) : Bool :=
  let n := c.toNat
  (0xA ≤ n && n ≤ 0xD) || (0x1C ≤ n && n ≤ 0x1E) || n == 0x85 || n == 0x2028 || n == 0x2029

def cutAt (isEnd : Char → Bool) (c : Char) (rest : List Char) : Bool :=
  isEnd c && !(c = '\r' && rest.head? = some '\n')

def dropBoundary (piece : List Char) : List Char :=
  if ['\r', '\n'].isSuffixOf piece then piece.dropLast.dropLast
  else if piece.getLast?.any isLineBoundary then piece.dropLast
  else piece

def splitlines (text : List Char) : List (List Char) :=
  (Lines.pieces (cutAt isLineBoundary) text).map dropBoundary

-- `readlines` of a file that was opened with `newline=""`.
def readlines (content : List Char) : List (List Char) :=
  Lines.pieces (cutAt (fun c => c = '\n' || c = '\r')) content

inductive LineEnding where
  | lf
  | crlf
  deriving DecidableEq, Repr

def hasPart (part text : List Char) : Bool :=
  text.tails.any part.isPrefixOf

def detectLineEnding (sample : List Char) : Option LineEnding :=
  let head := sample.take 4096
  if hasPart ['\r', '\n'] head then some .crlf
  else if hasPart ['\n'] head then some .lf
  else none

def normalizeLineEndings (text : List Char) (target : Option LineEnding) : List Char :=
  match target with
  | none => text
  | some ending =>
    let normalized := Substitution.replace ['\r'] ['\n'] (Substitution.replace ['\r', '\n'] ['\n'] text)
    match ending with
    | .crlf => Substitution.replace ['\n'] ['\r', '\n'] normalized
    | .lf => normalized

end Lines

section Paths

structure Place where
  -- The resolved workspace and the resolved target file, as components of absolute paths.
  workspace : List (List Char)
  file : List (List Char)
  -- `Path.resolve` of an absolute path.
  resolve : List Char → List (List Char)

def relativeTo : List (List Char) → List (List Char) → Option (List (List Char))
  | [], path => some path
  | _ :: _, [] => none
  | part :: base, part' :: path => if part = part' then relativeTo base path else none

def joined (parts : List (List Char)) : List Char :=
  ['/'].intercalate parts

-- `str` of a relative path.
def relativeText (parts : List (List Char)) : List Char :=
  if parts = [] then ['.'] else joined parts

def strippedBy (dropped : Char → Bool) (s : List Char) : List Char :=
  ((s.dropWhile dropped).reverse.dropWhile dropped).reverse

def extractPatchPath (headerValue : List Char) : Option (List Char) :=
  let rawPath := strippedBy Text.isSpace (headerValue.takeWhile (· ≠ '\t'))
  if rawPath = "/dev/null".toList then none
  else some (rawPath.map fun c => if c = '\\' then '/' else c)

def candidatePatchPaths (place : Place) (patchPath : Option (List Char)) (strip : Int) : List (List Char) :=
  match patchPath with
  | none => []
  | some [] => []
  | some path =>
    let absolute :=
      if path.head? = some '/' then
        let resolved := place.resolve path
        [match relativeTo place.workspace resolved with
          | some relative => relativeText relative
          | none => joined resolved]
      else []
    let parts := (path.splitOn '/').filter (fun part => part ≠ [] && part ≠ ['.'])
    let parts :=
      if strip = 0 then if parts.head? = some ['a'] || parts.head? = some ['b'] then parts.tail else parts
      else if 0 < strip then parts.drop strip.toNat
      else parts
    absolute ++ if parts = [] then [] else [joined parts]

def patchTargetsMatch (place : Place) (oldPath newPath : Option (List Char)) (strip : Int) : Bool :=
  let normalizedTarget :=
    match relativeTo place.workspace place.file with
    | some relative => relativeText relative
    | none => (joined ([] :: place.file)).dropWhile (fun c => c = '.' || c = '/')
  let candidates := candidatePatchPaths place oldPath strip ++ candidatePatchPaths place newPath strip
  candidates = [] || normalizedTarget ∈ candidates

end Paths

section Hunks

structure PatchHunkLine where
  operation : Char
  text : List Char
  hasNewline : Bool
  deriving DecidableEq, Repr

def PatchHunkLine.render (line : PatchHunkLine) : List Char :=
  line.text ++ if line.hasNewline then ['\n'] else []

structure PatchHunk where
  oldStart : Int
  oldCount : Nat
  newStart : Int
  newCount : Nat
  lines : List PatchHunkLine
  deriving DecidableEq, Repr

def decimalZeros : List Nat :=
  [0x30, 0x660, 0x6F0, 0x7C0, 0x966, 0x9E6, 0xA66, 0xAE6, 0xB66, 0xBE6, 0xC66, 0xCE6, 0xD66, 0xDE6, 0xE50, 0xED0,
    0xF20, 0x1040, 0x1090, 0x17E0, 0x1810, 0x1946, 0x19D0, 0x1A80, 0x1A90, 0x1B50, 0x1BB0, 0x1C40, 0x1C50, 0xA620,
    0xA8D0, 0xA900, 0xA9D0, 0xA9F0, 0xAA50, 0xABF0, 0xFF10, 0x104A0, 0x10D30, 0x11066, 0x110F0, 0x11136, 0x111D0,
    0x112F0, 0x11450, 0x114D0, 0x11650, 0x116C0, 0x11730, 0x118E0, 0x11950, 0x11C50, 0x11D50, 0x11DA0, 0x16A60,
    0x16AC0, 0x16B50, 0x1D7CE, 0x1D7D8, 0x1D7E2, 0x1D7EC, 0x1D7F6, 0x1E140, 0x1E2F0, 0x1E950, 0x1FBF0]

def decimalValue (c : Char) : Option Nat :=
  (decimalZeros.find? (fun n => n ≤ c.toNat && c.toNat < n + 10)).map (c.toNat - ·)

-- `\d+` and `int` of it.
def matchNumber (s : List Char) : Option (Nat × List Char) :=
  let digits := s.takeWhile (fun c => (decimalValue c).isSome)
  if digits = [] then none
  else some (digits.foldl (fun n c => 10 * n + (decimalValue c).getD 0) 0, s.drop digits.length)

def matchLiteral (literal s : List Char) : Option (List Char) :=
  if literal.isPrefixOf s then some (s.drop literal.length) else none

-- `(?P<start>\d+)(?:,(?P<count>\d+))?`, with the default of the count.
def matchRange (s : List Char) : Option ((Nat × Nat) × List Char) := do
  let (start, rest) ← matchNumber s
  match rest with
  | ',' :: rest =>
    let (count, rest) ← matchNumber rest
    return ((start, count), rest)
  | rest => return ((start, if start = 0 then 0 else 1), rest)

def matchHunkHeader (line : List Char) : Option PatchHunk := do
  let rest ← matchLiteral "@@ -".toList line
  let (old, rest) ← matchRange rest
  let rest ← matchLiteral " +".toList rest
  let (new, rest) ← matchRange rest
  let _ ← matchLiteral " @@".toList rest
  return {
    oldStart := old.1 - 1
    oldCount := old.2
    newStart := new.1 - 1
    newCount := new.2
    lines := [] }

structure ParsedPatch where
  oldPath : Option (List Char)
  newPath : Option (List Char)
  headerCount : Nat
  hunks : List PatchHunk
  deriving DecidableEq, Repr

-- Where the next line is read: by the outer loop, behind a `--- ` line, or by the loop over the lines of a hunk.
inductive Reading where
  | outer
  | header
  | hunk (hunk : PatchHunk)
  deriving DecidableEq, Repr

structure Parser where
  reading : Reading
  parsed : ParsedPatch
  deriving DecidableEq, Repr

def readOuter (parsed : ParsedPatch) (line : List Char) : Parser :=
  if "--- ".toList.isPrefixOf line then
    ⟨.header, { parsed with headerCount := parsed.headerCount + 1, oldPath := extractPatchPath (line.drop 4) }⟩
  else
    match matchHunkHeader line with
    | some hunk => ⟨.hunk hunk, parsed⟩
    | none => ⟨.outer, parsed⟩

def markLast (lines : List PatchHunkLine) : List PatchHunkLine :=
  match lines.getLast? with
  | some last => lines.dropLast ++ [{ last with hasNewline := false }]
  | none => []

def closeHunk (parsed : ParsedPatch) (hunk : PatchHunk) : ParsedPatch :=
  { parsed with hunks := parsed.hunks ++ [hunk] }

def isOperation (c : Char) : Bool :=
  c = ' ' || c = '+' || c = '-'

def readLine (parser : Parser) (line : List Char) : Parser :=
  let parsed := parser.parsed
  match parser.reading with
  | .outer => readOuter parsed line
  | .header =>
    if "+++ ".toList.isPrefixOf line then ⟨.outer, { parsed with newPath := extractPatchPath (line.drop 4) }⟩
    else readOuter parsed line
  | .hunk hunk =>
    if "@@".toList.isPrefixOf line || "--- ".toList.isPrefixOf line then readOuter (closeHunk parsed hunk) line
    else if "\\ ".toList.isPrefixOf line then ⟨.hunk { hunk with lines := markLast hunk.lines }, parsed⟩
    else
      match line with
      | [] => readOuter (closeHunk parsed hunk) line
      | c :: text =>
        if isOperation c then ⟨.hunk { hunk with lines := hunk.lines ++ [⟨c, text, true⟩] }, parsed⟩
        else readOuter (closeHunk parsed hunk) line

def Parser.finish (parser : Parser) : ParsedPatch :=
  match parser.reading with
  | .hunk hunk => closeHunk parser.parsed hunk
  | _ => parser.parsed

def parseUnifiedDiff (patch : List Char) : ParsedPatch :=
  ((splitlines patch).foldl readLine ⟨.outer, ⟨none, none, 0, []⟩⟩).finish

end Hunks

section Applying

def PatchHunk.oldLines (hunk : PatchHunk) : List (List Char) :=
  (hunk.lines.filter (fun line => line.operation = ' ' || line.operation = '-')).map PatchHunkLine.render

def PatchHunk.newLines (hunk : PatchHunk) : List (List Char) :=
  (hunk.lines.filter (fun line => line.operation = ' ' || line.operation = '+')).map PatchHunkLine.render

def hasAt (current old : List (List Char)) (start : Nat) : Bool :=
  (current.drop start).take old.length = old

def searchStarts (current old : List (List Char)) (expectedStart : Nat) : List Nat :=
  let window := max (old.length + 3) 8
  let low := expectedStart - window
  let high := min (current.length - old.length) (expectedStart + window)
  let near := if old.length ≤ current.length then List.range' low (high + 1 - low) else []
  let all := List.range (current.length + 1 - old.length)
  expectedStart :: (near ++ all)

def findHunkStart (current : List (List Char)) (hunk : PatchHunk) (old : List (List Char)) : Option Nat :=
  let expectedStart := hunk.oldStart.toNat
  if hasAt current old expectedStart then some expectedStart
  else if old = [] then some (min expectedStart current.length)
  else (searchStarts current old expectedStart).find? (hasAt current old)

structure Applying where
  lines : List (List Char)
  failed : List PatchHunk
  deriving DecidableEq, Repr

def applyHunk (applying : Applying) (hunk : PatchHunk) : Applying :=
  let old := hunk.oldLines
  match findHunkStart applying.lines hunk old with
  | none => { applying with failed := applying.failed ++ [hunk] }
  | some start =>
    { applying with
      lines := applying.lines.take start ++ (hunk.newLines ++ applying.lines.drop (start + old.length)) }

def applyHunks (original : List (List Char)) (hunks : List PatchHunk) : Applying :=
  (hunks.mergeSort (fun hunk hunk' => hunk'.oldStart ≤ hunk.oldStart)).foldl applyHunk ⟨original, []⟩

inductive PatchResult where
  | invalidPatch
  | patchTargetMismatch
  | patchApplyFailed (failed : List PatchHunk)
  | applied (content : List Char) (hunksApplied : Nat) (lineEnding : Option LineEnding)
  deriving DecidableEq, Repr

def applyPatch (place : Place) (content patch : List Char) (strip : Int) : PatchResult :=
  let originalLines := readlines content
  let lineEnding := detectLineEnding originalLines.flatten
  let parsed := parseUnifiedDiff patch
  if parsed.hunks = [] || parsed.headerCount ≠ 1 then .invalidPatch
  else if !patchTargetsMatch place parsed.oldPath parsed.newPath strip then .patchTargetMismatch
  else
    let applying := applyHunks (originalLines.map (normalizeLineEndings · (some .lf))) parsed.hunks
    if applying.failed ≠ [] then .patchApplyFailed applying.failed
    else .applied (normalizeLineEndings applying.lines.flatten lineEnding) parsed.hunks.length lineEnding

end Applying

section Writing

-- How the calls of the operating system in `_atomic_write_text_sync` end.
structure Calls where
  -- No call up to `os.replace` fails: the new content is written next to the file and takes its place.
  replaced : Bool
  -- No call behind it fails, such as the `os.fsync` of `_sync_parent_directory`.
  synced : Bool
  deriving DecidableEq, Repr

def atomicWriteText (calls : Calls) (before content : List Char) : List Char × Except Unit Unit :=
  if !calls.replaced then (before, .error ())
  else if !calls.synced then (content, .error ())
  else (content, .ok ())

-- What the file holds afterwards, and the result, with `none` for `patch_failed`.
def patchFile (calls : Calls) (place : Place) (content patch : List Char) (strip : Int)
    : List Char × Option PatchResult :=
  match applyPatch place content patch strip with
  | .applied newContent hunksApplied lineEnding =>
    match atomicWriteText calls content newContent with
    | (after, .ok ()) => (after, some (.applied newContent hunksApplied lineEnding))
    | (after, .error ()) => (after, none)
  | result => (content, some result)

end Writing

end Patch
end Sandbox
end MemStack
