import MemStack.Util.Json
import MemStack.Util.Lines
import MemStack.Util.Substitution
import MemStack.Util.Text

/-!
This module contains the local tools that read, write and edit files (`adapters-local-tools/src/lib.rs`). The
files below the root of a workspace hold texts. What a failed call has created is left out.
-/

namespace MemStack
namespace Agent
namespace LocalTools

inductive Entry where
  | file (content : String)
  | dir
  | symlink
  deriving DecidableEq, Repr

structure Workspace where
  root : List String
  entries : List String → Option Entry

inductive IoError where
  | notFound
  | notADirectory
  | isADirectory
  | alreadyExists
  deriving DecidableEq, Repr

namespace IoError

def text : IoError → String
  | notFound => "No such file or directory (os error 2)"
  | notADirectory => "Not a directory (os error 20)"
  | isADirectory => "Is a directory (os error 21)"
  | alreadyExists => "File exists (os error 17)"

end IoError

section Inputs

variable {F : Type}

def field (input : Json F) (key : String) : Option (Json F) :=
  match input with
  | .dict entries => Json.get entries key
  | _ => none

def stringOpt (input : Json F) (keys : List String) : Option String :=
  keys.findSome? (fun key => (((field input key).bind Json.asStr).map Text.trim).filter (· ≠ ""))

def stringAny (input : Json F) (keys : List String) : Except String String :=
  (stringOpt input keys).elim (.error ("missing " ++ String.intercalate "/" keys)) .ok

def inputPath (input : Json F) : Except String String :=
  stringAny input ["path", "file_path", "filename", "file"]

def boolField (input : Json F) (key : String) : Option Bool :=
  match field input key with
  | some (.bool b) => some b
  | _ => none

def usizeField (input : Json F) (key : String) : Option Nat :=
  match field input key with
  | some (.int n) => if 0 ≤ n ∧ n < 2 ^ 64 then some n.toNat else none
  | _ => none

end Inputs

section Paths

def components (raw : String) : List String :=
  ((raw.toList.splitOn '/').map String.ofList).filter (fun part => part ≠ "" && part ≠ ".")

def isAbsolute (raw : String) : Bool :=
  raw.toList.head? = some '/'

def stripBase : List String → List String → Option (List String)
  | [], path => some path
  | _ :: _, [] => none
  | part :: base, part' :: path => if part = part' then stripBase base path else none

def escape (raw : String) : String :=
  "path escape rejected: " ++ raw

def normalizeStep (raw : String) (normalized : List String) (part : String) : Except String (List String) :=
  if part = ".." then
    if normalized = [] then .error (escape raw) else .ok normalized.dropLast
  else .ok (normalized ++ [part])

namespace Workspace

variable (ws : Workspace)

def entry (path : List String) : Option Entry :=
  if path = [] then some .dir else ws.entries path

def display (path : List String) : String :=
  "/" ++ String.intercalate "/" (ws.root ++ path)

def resolveLexicalPath (raw : String) : Except String (List String) := do
  let relative ←
    if isAbsolute raw then
      match stripBase ws.root (components raw) with
      | some relative => .ok relative
      | none => .error (escape raw)
    else .ok (components raw)
  relative.foldlM (normalizeStep raw) []

def symlinkMetadata (path : List String) : Except IoError Entry :=
  match ws.entry path with
  | some entry => .ok entry
  | none =>
    match ws.entry path.dropLast with
    | some (.file _) => .error .notADirectory
    | _ => .error .notFound

-- The components below `current`.
def rejectSymlinkComponents (raw : String) : List String → List String → Except String Unit
  | _, [] => .ok ()
  | current, part :: relative =>
    match ws.symlinkMetadata (current ++ [part]) with
    | .ok .symlink => .error ("symlink path rejected: " ++ raw)
    | .ok _ => rejectSymlinkComponents raw (current ++ [part]) relative
    | .error .notFound => .ok ()
    | .error e => .error e.text

def resolveExistingPath (raw : String) : Except String (List String) := do
  let path ← ws.resolveLexicalPath raw
  ws.rejectSymlinkComponents raw [] path
  match ws.symlinkMetadata path with
  | .ok _ => .ok path
  | .error e =>
    .error ("path '" ++ raw ++ "' is not readable inside workspace '" ++ ws.display [] ++ "': " ++ e.text)

def set (path : List String) (entry : Entry) : Workspace :=
  { ws with entries := Function.update ws.entries path (some entry) }

def createDirAll (ws : Workspace) : List String → List String → Except String Workspace
  | _, [] => .ok ws
  | current, part :: relative =>
    match ws.entry (current ++ [part]) with
    | some .dir => createDirAll ws (current ++ [part]) relative
    | some _ => .error IoError.alreadyExists.text
    | none => createDirAll (ws.set (current ++ [part]) .dir) (current ++ [part]) relative

def resolveWritePath (raw : String) : Except String (List String × Workspace) := do
  let path ← ws.resolveLexicalPath raw
  ws.rejectSymlinkComponents raw [] path
  -- The parent of the root is not in the workspace.
  if path = [] then
    .error (if ws.root = [] then "path has no parent: " ++ raw else escape raw)
  else do
    let ws ← createDirAll ws [] path.dropLast
    ws.rejectSymlinkComponents raw [] path
    return (path, ws)

def read (path : List String) : Except String String :=
  match ws.entry path with
  | some (.file content) => .ok content
  | some _ => .error IoError.isADirectory.text
  | none => .error IoError.notFound.text

def write (path : List String) (content : String) : Except String Workspace :=
  match ws.entry path with
  | some .dir => .error IoError.isADirectory.text
  | _ => .ok (ws.set path (.file content))

end Workspace

end Paths

section Diffs

def maxTextBytes : Nat :=
  64 * 1024

def fitting : Nat → List Char → List Char
  | _, [] => []
  | n, c :: s => if c.utf8Size ≤ n then c :: fitting (n - c.utf8Size) s else []

def truncateText (text : String) (max : Nat) : String :=
  if text.utf8ByteSize ≤ max then text
  else String.ofList (fitting max text.toList) ++ "\n[truncated at " ++ toString max ++ " bytes]"

def isLineFeed (c : Char) (_ : List Char) : Bool :=
  c = '\n'

def lineOf (piece : List Char) : List Char :=
  if piece.getLast? = some '\n' then
    let line := piece.dropLast
    if line.getLast? = some '\r' then line.dropLast else line
  else piece

def lines (text : String) : List String :=
  (Lines.pieces isLineFeed text.toList).map (fun piece => String.ofList (lineOf piece))

def makeSimpleDiff (old new : String) : String :=
  let removed := (lines old).filter (· ∉ lines new)
  let added := (lines new).filter (· ∉ lines old)
  truncateText (String.join (removed.map (fun line => "- " ++ line ++ "\n") ++
    added.map (fun line => "+ " ++ line ++ "\n"))) maxTextBytes

end Diffs

section Tools

variable {F : Type} (ws : Workspace)

structure ReadResult where
  path : String
  absolutePath : String
  content : String
  bytes : Nat
  truncated : Bool
  deriving DecidableEq, Repr

structure WriteResult where
  path : String
  absolutePath : String
  bytesWritten : Nat
  created : Bool
  deriving DecidableEq, Repr

structure EditResult where
  path : String
  preview : Bool
  changed : Bool
  diff : String
  deriving DecidableEq, Repr

def sliceChars (text : String) (offset limit : Nat) : String :=
  String.ofList ((text.toList.drop offset).take limit)

def readTool (input : Json F) : Except String ReadResult := do
  let path ← inputPath input
  let absolute ← ws.resolveExistingPath path
  let text ← ws.read absolute
  let offset := (usizeField input "offset").getD 0
  let limit := (usizeField input "limit").getD text.utf8ByteSize
  let sliced := sliceChars text offset limit
  return {
    path
    absolutePath := ws.display absolute
    content := sliced
    bytes := text.utf8ByteSize
    truncated := text.utf8ByteSize > sliced.utf8ByteSize }

def writeTool (input : Json F) : Except String (WriteResult × Workspace) := do
  let path ← inputPath input
  let content ← stringAny input ["content", "text", "data"]
  let (absolute, ws) ← ws.resolveWritePath path
  let existedBefore := (ws.entry absolute).isSome
  let ws ← ws.write absolute content
  return ({
    path
    absolutePath := ws.display absolute
    bytesWritten := content.utf8ByteSize
    created := !existedBefore }, ws)

def replaced (all : Bool) (content oldText newText : String) : String :=
  if all then String.ofList (Substitution.replace oldText.toList newText.toList content.toList)
  else String.ofList (Substitution.replaceFirst oldText.toList newText.toList content.toList)

def editTool (input : Json F) (preview : Bool) : Except String (EditResult × Workspace) := do
  let path ← inputPath input
  let oldText ← stringAny input ["old_text", "old", "target"]
  let newText ← stringAny input ["new_text", "new", "replacement"]
  let all := (boolField input "replace_all").getD false
  let absolute ← ws.resolveExistingPath path
  let content ← ws.read absolute
  if !Text.contains content oldText then
    .error ("target text not found in " ++ path)
  else do
    let changed := replaced all content oldText newText
    let ws ← if preview then .ok ws else ws.write absolute changed
    return ({ path, preview, changed := changed ≠ content, diff := makeSimpleDiff content changed }, ws)

end Tools

end LocalTools
end Agent
end MemStack
