import MemStack.Util.Lines
import MemStack.Util.Text
import MemStack.Util.Windows

/-!
This module contains the chunks that a text is cut into (`infrastructure/memory/chunker.py`), which overlap.
The hash of a text is given.
-/

namespace MemStack
namespace Memory

open Windows

structure TextChunk where
  text : String
  startLine : Nat
  endLine : Nat
  contentHash : String
  chunkIndex : Nat
  deriving DecidableEq, Repr

abbrev Segment := String × Nat

-- `line[start : start + max_chars]` for each start.
def splitLineIntoSegments (line : String) (maxChars : Nat) : List String :=
  if line = "" then
    [""]
  else
    (List.range' 0 ((line.length + maxChars - 1) / maxChars) maxChars).map fun start =>
      String.ofList ((line.toList.drop start).take maxChars)

def splitLines (content : String) : List String :=
  (content.toList.splitOn '\n').map String.ofList

def textOf (segments : List Segment) : String :=
  "\n".intercalate (segments.map Prod.fst)

structure State where
  chunks : List TextChunk := []
  current : List Segment := []
  currentChars : Nat := 0

section Loop

variable (hash : String → String) (maxChars overlapChars : Nat)

def flush (s : State) : State :=
  match s.current with
  | [] => s
  | first :: rest =>
    let text := textOf (first :: rest)
    let chunk : TextChunk := {
      text
      startLine := first.2
      endLine := ((first :: rest).getLast (List.cons_ne_nil first rest)).2
      contentHash := hash text
      chunkIndex := s.chunks.length
    }
    { s with chunks := s.chunks ++ [chunk] }

def keepFrom : List Segment → Nat → List Segment → List Segment
  | [], _, kept => kept
  | segment :: earlier, acc, kept =>
    let acc := acc + (segment.1.length + 1)
    if overlapChars ≤ acc then segment :: kept else keepFrom earlier acc (segment :: kept)

def charsOf (segments : List Segment) : Nat :=
  (segments.map fun segment => segment.1.length + 1).sum

def carryOverlap (s : State) : State :=
  if overlapChars = 0 ∨ s.current = [] then
    { s with current := [], currentChars := 0 }
  else
    let kept := keepFrom overlapChars s.current.reverse 0 []
    { s with current := kept, currentChars := charsOf kept }

def addSegment (s : State) (segment : Segment) : State :=
  let lineSize := segment.1.length + 1
  let s :=
    if maxChars < s.currentChars + lineSize ∧ s.current ≠ [] then
      carryOverlap overlapChars (flush hash s)
    else
      s
  { s with current := s.current ++ [segment], currentChars := s.currentChars + lineSize }

def addLine (s : State) (line : String × Nat) : State :=
  (splitLineIntoSegments line.1 maxChars).foldl
    (fun s segment => addSegment hash maxChars overlapChars s (segment, line.2 + 1)) s

end Loop

def maxCharsOf (maxTokens charsPerToken : Int) : Nat :=
  (max 32 (maxTokens * charsPerToken)).toNat

def overlapCharsOf (overlapTokens charsPerToken : Int) : Nat :=
  (max 0 (overlapTokens * charsPerToken)).toNat

def chunkText (hash : String → String) (content : String) (maxTokens overlapTokens charsPerToken : Int)
    : List TextChunk :=
  if content = "" ∨ Text.strip content = "" then
    []
  else
    let maxChars := maxCharsOf maxTokens charsPerToken
    let overlapChars := overlapCharsOf overlapTokens charsPerToken
    (flush hash ((splitLines content).zipIdx.foldl (addLine hash maxChars overlapChars) {})).chunks

-- What `carry_overlap` keeps of a window.
def carried (overlapChars : Nat) (current : List Segment) : List Segment :=
  if overlapChars = 0 ∨ current = [] then [] else keepFrom overlapChars current.reverse 0 []

def exceeds (maxChars : Nat) (current : List Segment) (segment : Segment) : Bool :=
  maxChars < charsOf current + (segment.1.length + 1)

/--
The chunk of some segments: their texts with a line break between two of them, and the lines of the first and the
last of them.
-/
def chunkOf (hash : String → String) (window : List Segment × Nat) : TextChunk where
  text := "\n".intercalate (window.1.map Prod.fst)
  startLine := (window.1.head?.map Prod.snd).getD 0
  endLine := (window.1.getLast?.map Prod.snd).getD 0
  contentHash := hash ("\n".intercalate (window.1.map Prod.fst))
  chunkIndex := window.2

def segmentsOf (content : String) (maxChars : Nat) : List Segment :=
  (splitLines content).zipIdx.flatMap fun line =>
    (splitLineIntoSegments line.1 maxChars).map fun segment => (segment, line.2 + 1)

variable {hash : String → String} {maxChars overlapChars : Nat} {segments current : List Segment}
  {segment : Segment} {s : State} {window : Windows.State Segment} {content : String}

theorem keepFrom_suffix (overlapChars : Nat) (segments : List Segment) (acc : Nat) (kept : List Segment)
    : keepFrom overlapChars segments acc kept <:+ segments.reverse ++ kept := by
  induction segments generalizing acc kept with
  | nil => exact List.suffix_refl kept
  | cons segment earlier ih =>
    rw [keepFrom, List.reverse_cons, List.append_assoc]
    split
    . exact List.suffix_append _ _
    . exact ih _ _

theorem carried_suffix : carried overlapChars current <:+ current := by
  unfold carried
  split
  . exact List.nil_suffix
  . have h := keepFrom_suffix overlapChars current.reverse 0 []
    rwa [List.reverse_reverse, List.append_nil] at h

theorem charsOf_concat : charsOf (current ++ [segment]) = charsOf current + (segment.1.length + 1) := by
  simp [charsOf]

variable (current) in
theorem length_textOf (hne : current ≠ []) : (textOf current).length + 1 = charsOf current := by
  induction current with
  | nil => exact absurd rfl hne
  | cons segment current ih =>
    cases current with
    | nil => simp [textOf, charsOf]
    | cons next current =>
      have hnext := ih (by simp)
      unfold textOf charsOf at hnext ⊢
      rw [List.map_cons, List.map_cons, String.intercalate_cons_cons]
      rw [List.map_cons] at hnext
      simp only [String.length_append, List.map_cons, List.sum_cons] at hnext ⊢
      have hbreak : "\n".length = 1 := rfl
      omega

structure Tracks (hash : String → String) (s : State) (window : Windows.State Segment) : Prop where
  chunks : s.chunks = window.done.zipIdx.map (chunkOf hash)
  current : s.current = window.current
  currentChars : s.currentChars = charsOf window.current

theorem flush_eq (h : Tracks hash s window)
    : flush hash s = { s with chunks := window.windows.zipIdx.map (chunkOf hash) } := by
  have hlength : s.chunks.length = window.done.length := by
    rw [h.chunks, List.length_map, List.length_zipIdx]
  have hcurrent := h.current
  unfold flush State.windows
  split
  . next hnil => rw [if_pos (hcurrent.symm.trans hnil), ← h.chunks]
  . next first rest hcons =>
    have hwindow : window.current = first :: rest := hcurrent.symm.trans hcons
    have hne : window.current ≠ [] := by
      rw [hwindow]
      exact List.cons_ne_nil first rest
    rw [if_neg hne, hwindow, hlength, h.chunks, List.zipIdx_append, List.map_append]
    simp [chunkOf, textOf, List.getLast?_eq_some_getLast]

theorem currentChars_carryOverlap (s : State)
    : carryOverlap overlapChars s =
        { s with
          current := carried overlapChars s.current
          currentChars := charsOf (carried overlapChars s.current) } := by
  unfold carryOverlap carried
  split
  . rfl
  . rfl

theorem tracks_addSegment (h : Tracks hash s window)
    : Tracks hash (addSegment hash maxChars overlapChars s segment)
        (step (exceeds maxChars) (carried overlapChars) window segment) := by
  unfold addSegment
  dsimp only
  by_cases hcut : maxChars < charsOf window.current + (segment.1.length + 1) ∧ window.current ≠ []
  . have hcut' : maxChars < s.currentChars + (segment.1.length + 1) ∧ s.current ≠ [] := by
      rw [h.currentChars, h.current]
      exact hcut
    rw [if_pos hcut', currentChars_carryOverlap, flush_eq h, step, if_pos ⟨decide_eq_true hcut.1, hcut.2⟩]
    refine ⟨?_, ?_, ?_⟩
    . dsimp only
      rw [State.windows, if_neg hcut.2]
    . dsimp only
      rw [h.current]
    . dsimp only
      rw [h.current, charsOf_concat]
  . have hcut' : ¬(maxChars < s.currentChars + (segment.1.length + 1) ∧ s.current ≠ []) := by
      rw [h.currentChars, h.current]
      exact hcut
    have hkeep : ¬(exceeds maxChars window.current segment = true ∧ window.current ≠ []) :=
      fun h => hcut ⟨of_decide_eq_true h.1, h.2⟩
    rw [if_neg hcut', step, if_neg hkeep]
    refine ⟨h.chunks, ?_, ?_⟩
    . dsimp only
      rw [h.current]
    . dsimp only
      rw [h.currentChars, charsOf_concat]

theorem tracks_foldl (h : Tracks hash s window)
    : Tracks hash (segments.foldl (addSegment hash maxChars overlapChars) s)
        (segments.foldl (step (exceeds maxChars) (carried overlapChars)) window) := by
  induction segments generalizing s window with
  | nil => exact h
  | cons segment segments ih => exact ih (tracks_addSegment h)

theorem foldl_addLine {lines : List (String × Nat)}
    : lines.foldl (addLine hash maxChars overlapChars) s =
        (lines.flatMap fun line =>
          (splitLineIntoSegments line.1 maxChars).map fun segment => (segment, line.2 + 1)).foldl
            (addSegment hash maxChars overlapChars) s := by
  rw [List.foldl_flatMap]
  congr 1
  funext s line
  rw [addLine, List.foldl_map]

def windowsOf (content : String) (maxChars overlapChars : Nat) : List (List Segment) :=
  (run (exceeds maxChars) (carried overlapChars) (segmentsOf content maxChars)).windows

theorem chunkText_eq {maxTokens overlapTokens charsPerToken : Int} (hcontent : Text.strip content ≠ "")
    : chunkText hash content maxTokens overlapTokens charsPerToken =
        (windowsOf content (maxCharsOf maxTokens charsPerToken)
          (overlapCharsOf overlapTokens charsPerToken)).zipIdx.map (chunkOf hash) := by
  have hempty : ¬(content = "" ∨ Text.strip content = "") := by
    rintro (rfl | hstrip)
    . exact hcontent (by decide)
    . exact hcontent hstrip
  have htracks : Tracks hash {} {} := ⟨rfl, rfl, rfl⟩
  unfold chunkText
  rw [if_neg hempty]
  dsimp only
  rw [foldl_addLine, flush_eq (tracks_foldl htracks)]
  rfl

theorem flatten_slices {α : Type} (l : List α) (start k m : Nat)
    : ((List.range' start k m).map fun i => (l.drop i).take m).flatten = (l.drop start).take (k * m) := by
  induction k generalizing start with
  | zero => simp
  | succ k ih =>
    rw [List.range'_succ, List.map_cons, List.flatten_cons, ih, Nat.succ_mul, Nat.add_comm (k * m) m,
      List.take_add, List.drop_drop]

theorem flatMap_splitLineIntoSegments (line : String) (hmax : 0 < maxChars)
    : (splitLineIntoSegments line maxChars).flatMap String.toList = line.toList := by
  unfold splitLineIntoSegments
  split
  . next hempty =>
    rw [hempty]
    rfl
  . have henough : line.toList.length ≤ (line.length + maxChars - 1) / maxChars * maxChars := by
      rw [String.length_toList]
      have := Nat.div_add_mod (line.length + maxChars - 1) maxChars
      have := Nat.mod_lt (line.length + maxChars - 1) hmax
      rw [Nat.mul_comm]
      omega
    rw [List.flatMap_map]
    simp only [String.toList_ofList]
    rw [List.flatMap_def, flatten_slices, List.drop_zero, List.take_of_length_le henough]

theorem length_of_mem_splitLineIntoSegments {line part : String}
    (h : part ∈ splitLineIntoSegments line maxChars)
    : part.length ≤ maxChars := by
  unfold splitLineIntoSegments at h
  split at h
  . rw [List.mem_singleton.mp h]
    exact Nat.zero_le _
  . obtain ⟨start, -, rfl⟩ := List.mem_map.mp h
    rw [String.length_ofList]
    exact List.length_take_le _ _

theorem splitLineIntoSegments_ne_nil {line : String} (hmax : 0 < maxChars)
    : splitLineIntoSegments line maxChars ≠ [] := by
  intro hnil
  have h := flatMap_splitLineIntoSegments line hmax
  rw [hnil, List.flatMap_nil] at h
  have hempty : line = "" := String.toList_eq_nil_iff.mp h.symm
  rw [hempty] at hnil
  cases hnil

theorem intercalate_splitLines : "\n".intercalate (splitLines content) = content := by
  rw [← String.toList_inj, String.toList_intercalate, splitLines, List.map_map]
  have hid : String.toList ∘ String.ofList = id := funext fun _ => String.toList_ofList
  rw [hid, List.map_id]
  exact List.intercalate_splitOn '\n'

variable (content) in
theorem segmentsOf_ne_nil (hmax : 0 < maxChars) : segmentsOf content maxChars ≠ [] := by
  have hlines : splitLines content ≠ [] := by
    unfold splitLines
    simp
  obtain ⟨line, lines, hcons⟩ := List.exists_cons_of_ne_nil hlines
  intro hnil
  unfold segmentsOf at hnil
  rw [hcons, List.zipIdx_cons, List.flatMap_cons, List.append_eq_nil_iff, List.map_eq_nil_iff] at hnil
  exact splitLineIntoSegments_ne_nil hmax hnil.1

theorem maxCharsOf_pos (maxTokens charsPerToken : Int) : 0 < maxCharsOf maxTokens charsPerToken := by
  unfold maxCharsOf
  omega

theorem not_mem_of_mem_splitLines {line : String} (h : line ∈ splitLines content) : '\n' ∉ line.toList := by
  obtain ⟨part, hpart, rfl⟩ := List.mem_map.mp h
  rw [String.toList_ofList]
  exact Pieces.notMem_of_mem_splitOn part hpart

/--
Each chunk has what it keeps of the one before, and then at least one segment that is new. The new segments are all
segments of the text, which are its lines, each cut into pieces.
-/
theorem chunkText_covers (hash : String → String) (content : String) (maxTokens overlapTokens charsPerToken : Int)
    (hcontent : Text.strip content ≠ "")
    : ∃ pieces : List (Piece Segment),
        chunkText hash content maxTokens overlapTokens charsPerToken =
          (pieces.map Piece.window).zipIdx.map (chunkOf hash) ∧
        Covers (carried (overlapCharsOf overlapTokens charsPerToken))
          (segmentsOf content (maxCharsOf maxTokens charsPerToken)) pieces ∧
        pieces.IsChain (fun piece piece' => piece'.kept <:+ piece.window) ∧
        "\n".intercalate (splitLines content) = content ∧
        (∀ line ∈ splitLines content, '\n' ∉ line.toList) ∧
        ∀ line, (splitLineIntoSegments line (maxCharsOf maxTokens charsPerToken)).flatMap String.toList =
            line.toList ∧
          ∀ part ∈ splitLineIntoSegments line (maxCharsOf maxTokens charsPerToken),
            part.length ≤ maxCharsOf maxTokens charsPerToken := by
  have hmax := maxCharsOf_pos maxTokens charsPerToken
  obtain ⟨pieces, hwindows, hcovers⟩ := exists_windows_covers (exceeds (maxCharsOf maxTokens charsPerToken))
    (carried (overlapCharsOf overlapTokens charsPerToken)) (segmentsOf_ne_nil content hmax)
  refine ⟨pieces, ?_, hcovers, ?_, intercalate_splitLines, fun _ => not_mem_of_mem_splitLines,
    fun line => ⟨flatMap_splitLineIntoSegments line hmax, fun _ => length_of_mem_splitLineIntoSegments⟩⟩
  . rw [chunkText_eq hcontent, windowsOf, hwindows]
  . apply hcovers.next.imp
    intro piece piece' hkept
    rw [hkept]
    exact carried_suffix

def twoLines : String :=
  "aaaaaaaaaaaaaaaaaaaa\nbbbbbbbbbbbbbbbbbbbb"

theorem chunkText_covers_twoLines
    : ∃ pieces : List (Piece Segment),
        chunkText id twoLines 32 31 1 = (pieces.map Piece.window).zipIdx.map (chunkOf id) ∧
        Covers (carried 31) [("aaaaaaaaaaaaaaaaaaaa", 1), ("bbbbbbbbbbbbbbbbbbbb", 2)] pieces ∧
        pieces.IsChain (fun piece piece' => piece'.kept <:+ piece.window) := by
  obtain ⟨pieces, hchunks, hcovers, hchain, -⟩ := chunkText_covers id twoLines 32 31 1 (by decide +kernel)
  have hsegments : segmentsOf twoLines (maxCharsOf 32 1) =
      [("aaaaaaaaaaaaaaaaaaaa", 1), ("bbbbbbbbbbbbbbbbbbbb", 2)] := by decide +kernel
  rw [hsegments] at hcovers
  exact ⟨pieces, hchunks, hcovers, hchain⟩

def FitsAfterFlush (maxChars overlapChars : Nat) (before : List Segment) (segment : Segment) : Prop :=
  let current := (run (exceeds maxChars) (carried overlapChars) before).current
  maxChars < charsOf current + (segment.1.length + 1) → current ≠ [] →
    (textOf (carried overlapChars current ++ [segment])).length ≤ maxChars

theorem length_of_mem_segmentsOf (h : segment ∈ segmentsOf content maxChars) : segment.1.length ≤ maxChars := by
  obtain ⟨line, -, hmem⟩ := List.mem_flatMap.mp h
  obtain ⟨part, hpart, rfl⟩ := List.mem_map.mp hmem
  exact length_of_mem_splitLineIntoSegments hpart

theorem windowsOf_size_iff
    : (∀ window ∈ windowsOf content maxChars overlapChars, (textOf window).length ≤ maxChars) ↔
        History.AtEach (FitsAfterFlush maxChars overlapChars) (segmentsOf content maxChars) := by
  have hroom : FitsAfterFlush maxChars overlapChars =
      Room (exceeds maxChars) (carried overlapChars) fun window => (textOf window).length ≤ maxChars := by
    funext before segment
    unfold FitsAfterFlush Room exceeds
    dsimp only
    rw [decide_eq_true_iff]
  rw [hroom]
  apply forall_windows_iff
  . intro segment hsegment
    have hlength := length_textOf [segment] (by simp)
    have := length_of_mem_segmentsOf hsegment
    simp only [charsOf, List.map_cons, List.map_nil, List.sum_cons, List.sum_nil] at hlength
    omega
  . intro current segment _ hkeep
    have hlength := length_textOf (current ++ [segment]) (by simp)
    have hle := Nat.not_lt.mp fun hlt => hkeep (decide_eq_true hlt)
    rw [charsOf_concat] at hlength
    omega
  . intro current segment hP
    have hlength := length_textOf (current ++ [segment]) (by simp)
    rw [charsOf_concat] at hlength
    by_cases hne : current = []
    . rw [hne]
      exact Nat.zero_le _
    . have := length_textOf current hne
      omega

/--
No chunk is too long just when there is room after each flush, or no chunk at all.
-/
theorem chunkText_size_iff (hash : String → String) (content : String)
    (maxTokens overlapTokens charsPerToken : Int)
    : (∀ chunk ∈ chunkText hash content maxTokens overlapTokens charsPerToken,
          chunk.text.length ≤ maxCharsOf maxTokens charsPerToken)
        ↔
      Text.strip content = "" ∨
        History.AtEach
          (FitsAfterFlush (maxCharsOf maxTokens charsPerToken) (overlapCharsOf overlapTokens charsPerToken))
          (segmentsOf content (maxCharsOf maxTokens charsPerToken)) := by
  by_cases hcontent : Text.strip content = ""
  . have hnone : chunkText hash content maxTokens overlapTokens charsPerToken = [] :=
      if_pos (.inr hcontent)
    rw [hnone]
    simp [hcontent]
  . rw [or_iff_right hcontent, chunkText_eq hcontent, ← windowsOf_size_iff]
    constructor
    . intro h window hwindow
      obtain ⟨i, hi, rfl⟩ := List.mem_iff_getElem.mp hwindow
      apply h (chunkOf hash (_, i))
      apply List.mem_map_of_mem
      rw [List.mk_mem_zipIdx_iff_getElem?, List.getElem?_eq_getElem hi]
    . intro h chunk hchunk
      obtain ⟨window, hwindow, rfl⟩ := List.mem_map.mp hchunk
      exact h window.1 (List.fst_mem_of_mem_zipIdx hwindow)

theorem chunkText_too_long
    : ∃ content, ∃ chunk ∈ chunkText id content 32 31 1, maxCharsOf 32 1 < chunk.text.length := by
  refine ⟨twoLines,
    chunkOf id ([("aaaaaaaaaaaaaaaaaaaa", 1), ("bbbbbbbbbbbbbbbbbbbb", 2)], 1), ?_, by decide +kernel⟩
  decide +kernel

end Memory
end MemStack
