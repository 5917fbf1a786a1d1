import MemStack.Sandbox.PatchApplied

/-!
This module contains what a patch that is applied does to the bytes of a file.
-/

namespace MemStack
namespace Sandbox
namespace Patch

open UnifiedDiff (Line)

section Splitlines

variable {text piece line u v : List Char} {pre post : List (List Char)} {c : Char}

theorem boundary_within (h : Lines.pieces (cutAt isLineBoundary) text = pre ++ piece :: post)
    (hpiece : piece = u ++ c :: v) (hv : v ≠ []) (hc : isLineBoundary c = true)
    : c = '\r' ∧ v = ['\n'] := by
  have hnot := Lines.not_cut_within h hpiece hv
  unfold cutAt at hnot
  rw [hc, Bool.true_and, Bool.not_eq_false', Bool.and_eq_true, decide_eq_true_eq, decide_eq_true_eq] at hnot
  obtain ⟨d, w, rfl⟩ := List.exists_cons_of_ne_nil hv
  rw [List.cons_append, List.head?_cons, Option.some.injEq] at hnot
  obtain ⟨hreturn, rfl⟩ := hnot
  refine ⟨hreturn, ?_⟩
  by_cases hw : w = []
  . rw [hw]
  . -- A line feed ends a line always.
    rw [List.append_cons] at hpiece
    have hfeed := Lines.not_cut_within h hpiece hw
    have hcut (rest : List Char) : cutAt isLineBoundary '\n' rest = true := rfl
    rw [hcut] at hfeed
    cases hfeed

theorem isLineBoundary_of_mem_splitlines (h : line ∈ splitlines text) (hc : c ∈ line) : isLineBoundary c = false := by
  rw [Bool.eq_false_iff]
  intro hboundary
  obtain ⟨piece, hmem, rfl⟩ := List.mem_map.mp h
  obtain ⟨pre, post, hpieces⟩ := List.append_of_mem hmem
  unfold dropBoundary at hc
  split at hc
  . next hsuffix =>
    obtain ⟨t, rfl⟩ := List.isSuffixOf_iff_suffix.mp hsuffix
    have hdrop : (t ++ ['\r', '\n']).dropLast.dropLast = t := by simp
    rw [hdrop] at hc
    obtain ⟨u, w, rfl⟩ := List.append_of_mem hc
    obtain ⟨-, hv⟩ := @boundary_within _ _ u (w ++ ['\r', '\n']) _ _ c hpieces (by simp) (by simp) hboundary
    exact absurd (congrArg List.length hv) (by simp)
  . next hsuffix =>
    split at hc
    . next hlast =>
      obtain ⟨b, hb, -⟩ := (Option.any_eq_true _ _).mp hlast
      have hsplit := List.dropLast_append_getLast? b hb
      obtain ⟨u, w, hw⟩ := List.append_of_mem hc
      rw [hw] at hsplit
      obtain ⟨rfl, hv⟩ := @boundary_within _ _ u (w ++ [b]) _ _ c hpieces (by rw [← hsplit]; simp) (by simp)
        hboundary
      cases w with
      | nil =>
        obtain ⟨rfl⟩ := List.singleton_inj.mp hv
        apply hsuffix
        rw [List.isSuffixOf_iff_suffix, ← hsplit, List.append_assoc]
        exact List.suffix_append u _
      | cons d w => exact absurd (congrArg List.length hv) (by simp)
    . next hlast =>
      apply hlast
      obtain ⟨u, w, hw⟩ := List.append_of_mem hc
      rw [Option.any_eq_true]
      by_cases hnil : w = []
      . refine ⟨c, ?_, hboundary⟩
        rw [hw, hnil, List.getLast?_concat]
      . obtain ⟨rfl, rfl⟩ := boundary_within hpieces hw hnil hboundary
        refine ⟨'\n', ?_, rfl⟩
        rw [hw, List.append_cons, List.getLast?_concat]

end Splitlines

section Endings

variable {text s t : List Char} {ending : Option LineEnding} {line : Line}

def withEnding (ending : Option LineEnding) (text : List Char) : List Char :=
  match ending with
  | some .crlf => text.flatMap fun c => if c = '\n' then ['\r', '\n'] else [c]
  | _ => text

def unified (line : Line) : Line :=
  normalizeLineEndings line (some .lf)

def Kept (ending : Option LineEnding) (line : Line) : Prop :=
  withEnding ending (unified line) = line

theorem replace_char (c : Char) (v s : List Char)
    : Substitution.replace [c] v s = s.flatMap fun d => if d = c then v else [d] := by
  induction s with
  | nil => rfl
  | cons d s ih =>
    rw [List.flatMap_cons, ← ih]
    split
    . next heq =>
      rw [heq]
      exact Substitution.replace_hit (by simp) s
    . next hne =>
      apply Substitution.substitute_of_misses
      simp [Ne.symm hne]

theorem notMem_unified (line : Line) : '\r' ∉ unified line := by
  unfold unified normalizeLineEndings
  dsimp only
  rw [replace_char, List.mem_flatMap]
  rintro ⟨c, -, hc⟩
  split at hc
  . simp at hc
  . next hne => exact hne (List.mem_singleton.mp hc).symm

theorem normalizeLineEndings_withEnding (h : '\r' ∉ text)
    : normalizeLineEndings text ending = withEnding ending text := by
  have hlf := normalizeLineEndings_lf h
  cases ending with
  | none => rfl
  | some ending =>
    cases ending with
    | lf => exact hlf
    | crlf =>
      unfold normalizeLineEndings at hlf ⊢
      dsimp only at hlf ⊢
      rw [hlf, replace_char]
      rfl

theorem withEnding_append (s t : List Char)
    : withEnding ending (s ++ t) = withEnding ending s ++ withEnding ending t := by
  unfold withEnding
  split
  . rw [List.flatMap_append]
  . rfl

end Endings

section Clean

variable {hunk : PatchHunk} {parser : Parser} {parsed : ParsedPatch} {line : List Char}

def PatchHunk.Clean (hunk : PatchHunk) : Prop :=
  ∀ line ∈ hunk.lines, '\r' ∉ line.text

structure Parser.Clean (parser : Parser) : Prop where
  closed : ∀ hunk ∈ parser.parsed.hunks, hunk.Clean
  opened : ∀ hunk, parser.reading = .hunk hunk → hunk.Clean

theorem lines_of_header (h : matchHunkHeader line = some hunk) : hunk.lines = [] := by
  unfold matchHunkHeader at h
  simp only [Option.bind_eq_bind, Option.bind_eq_some_iff, pure, Option.some.injEq] at h
  obtain ⟨_, -, _, -, _, -, _, -, _, -, rfl⟩ := h
  rfl

theorem clean_readOuter (h : ∀ hunk ∈ parsed.hunks, hunk.Clean) (line : List Char) : (readOuter parsed line).Clean := by
  unfold readOuter
  split
  . exact ⟨h, by simp⟩
  . split
    . next hunk hmatch =>
      refine ⟨h, ?_⟩
      intro hunk' hreading l hl
      cases hreading
      rw [lines_of_header hmatch] at hl
      cases hl
    . exact ⟨h, by simp⟩

theorem clean_closeHunk (h : ∀ hunk ∈ parsed.hunks, hunk.Clean) (hhunk : hunk.Clean)
    : ∀ hunk' ∈ (closeHunk parsed hunk).hunks, hunk'.Clean := by
  intro hunk' hmem
  rcases List.mem_append.mp hmem with hmem | hmem
  . exact h hunk' hmem
  . rw [List.mem_singleton.mp hmem]
    exact hhunk

theorem clean_markLast {lines : List PatchHunkLine} (h : ∀ line ∈ lines, '\r' ∉ line.text)
    : ∀ line ∈ markLast lines, '\r' ∉ line.text := by
  unfold markLast
  split
  . next last hlast =>
    intro line hmem
    rcases List.mem_append.mp hmem with hmem | hmem
    . exact h line (List.mem_of_mem_dropLast hmem)
    . rw [List.mem_singleton.mp hmem]
      exact h last (List.mem_of_getLast? hlast)
  . simp

theorem clean_readLine (h : parser.Clean) (hline : '\r' ∉ line) : (readLine parser line).Clean := by
  obtain ⟨reading, parsed⟩ := parser
  cases reading with
  | outer => exact clean_readOuter h.closed line
  | header =>
    simp only [readLine]
    split
    . exact ⟨h.closed, by simp⟩
    . exact clean_readOuter h.closed line
  | hunk hunk =>
    have hhunk := h.opened hunk rfl
    have hclosed := clean_readOuter (clean_closeHunk h.closed hhunk) line
    simp only [readLine]
    split
    . exact hclosed
    . split
      . refine ⟨h.closed, ?_⟩
        intro hunk' hreading
        cases hreading
        exact clean_markLast hhunk
      . split
        . exact hclosed
        . next c text =>
          split
          . refine ⟨h.closed, ?_⟩
            intro hunk' hreading l hl
            cases hreading
            rcases List.mem_append.mp hl with hl | hl
            . exact hhunk l hl
            . rw [List.mem_singleton.mp hl]
              exact fun hmem => hline (List.mem_cons_of_mem _ hmem)
          . exact hclosed

theorem clean_parse (patch : List Char) : ∀ hunk ∈ (parseUnifiedDiff patch).hunks, hunk.Clean := by
  have hfold (lines : List (List Char)) (parser : Parser) (h : parser.Clean) (hlines : ∀ line ∈ lines, '\r' ∉ line)
      : (lines.foldl readLine parser).Clean := by
    induction lines generalizing parser with
    | nil => exact h
    | cons line lines ih =>
      exact ih _ (clean_readLine h (hlines line List.mem_cons_self)) (fun l hl => hlines l (List.mem_cons_of_mem _ hl))
  have hlines : ∀ line ∈ splitlines patch, '\r' ∉ line := by
    intro line hline hmem
    exact absurd (isLineBoundary_of_mem_splitlines hline hmem) (by decide)
  have hparser := hfold _ ⟨.outer, ⟨none, none, 0, []⟩⟩ ⟨by simp, by simp⟩ hlines
  unfold parseUnifiedDiff Parser.finish
  split
  . next hunk hreading => exact clean_closeHunk hparser.closed (hparser.opened hunk hreading)
  . exact hparser.closed

theorem notMem_newLines (h : hunk.Clean) : '\r' ∉ hunk.newLines.flatten := by
  intro hmem
  obtain ⟨rendered, hrendered, hmem⟩ := List.mem_flatten.mp hmem
  obtain ⟨line, hline, rfl⟩ := List.mem_map.mp hrendered
  unfold PatchHunkLine.render at hmem
  rcases List.mem_append.mp hmem with hmem | hmem
  . exact h line (List.mem_of_mem_filter hline) hmem
  . split at hmem <;> simp at hmem

end Clean

section Applied

variable {ending : Option LineEnding} {hunk : PatchHunk} {hunks : List PatchHunk} {lines front : List Line} {k : Nat}
variable {place : Place} {content patch : List Char} {strip : Int}

inductive Applied (ending : Option LineEnding) : List Line → List Char → List PatchHunk → Prop
  | rest (lines : List Line) : Applied ending lines lines.flatten []
  | hunk {gap old rest : List Line} {rest' : List Char} {hunk : PatchHunk} {hunks : List PatchHunk}
      (hold : old.map unified = hunk.oldLines) (hrest : Applied ending rest rest' hunks)
      : Applied ending (gap ++ (old ++ rest))
          (gap.flatten ++ (withEnding ending hunk.newLines.flatten ++ rest')) (hunk :: hunks)

def PatchHunk.Declared (hunk : PatchHunk) : Prop :=
  hunk.oldLines.length = hunk.oldCount ∧ hunk.newLines.length = hunk.newCount

def Accepted (place : Place) (patch : List Char) (strip : Int) : Prop :=
  (parseUnifiedDiff patch).hunks ≠ [] ∧ (parseUnifiedDiff patch).headerCount = 1 ∧
    patchTargetsMatch place (parseUnifiedDiff patch).oldPath (parseUnifiedDiff patch).newPath strip = true

/--
A patch that is reported as applied is applied in full and nowhere else, and every other report leaves the file.
-/
def AppliesExactly (calls : Calls) (place : Place) (content patch : List Char) (strip : Int) : Prop :=
  match patchFile calls place content patch strip with
  | (after, some (.applied _ _ _)) =>
    (∀ hunk ∈ (parseUnifiedDiff patch).hunks, hunk.Declared) ∧
      ∃ hunks, hunks.Perm (parseUnifiedDiff patch).hunks ∧
        Applied (detectLineEnding content) (readlines content) after hunks
  | (after, _) => after = content

theorem Applied.keep {rest : List Char} (h : Applied ending lines rest hunks) (line : Line)
    : Applied ending (line :: lines) (line ++ rest) hunks := by
  cases h with
  | rest => exact .rest (line :: lines)
  | @hunk gap old below below' hunk hunks hold hrest =>
    have happlied : Applied ending ((line :: gap) ++ (old ++ below)) ((line :: gap).flatten ++
        (withEnding ending hunk.newLines.flatten ++ below')) (hunk :: hunks) := .hunk hold hrest
    rw [List.flatten_cons, List.append_assoc] at happlied
    exact happlied

end Applied

section Runs

variable {ending : Option LineEnding} {hunk : PatchHunk} {hunks : List PatchHunk} {segments : List Segment}
variable {failed : List PatchHunk} {place : Place} {content patch : List Char} {strip : Int}

inductive Segment where
  | kept (line : Line)
  | placed (old : List Line) (hunk : PatchHunk)

def current (segments : List Segment) : List Line :=
  segments.flatMap fun
    | .kept line => [unified line]
    | .placed _ hunk => hunk.newLines

def original (segments : List Segment) : List Line :=
  segments.flatMap fun
    | .kept line => [line]
    | .placed old _ => old

def placedHunks (segments : List Segment) : List PatchHunk :=
  segments.filterMap fun
    | .kept _ => none
    | .placed _ hunk => some hunk

def Untouched (ending : Option LineEnding) (segments : List Segment) : List PatchHunk → Prop
  | [] => ∀ line, .kept line ∈ segments → Kept ending line
  | hunk :: hunks =>
    ∀ start, findHunkStart (current segments) hunk hunk.oldLines = some start →
      ∃ above old below, segments = above ++ (old.map .kept ++ below) ∧
        (current above).length = min start (current segments).length ∧ old.length = hunk.oldLines.length ∧
        Untouched ending (above ++ .placed old hunk :: below) hunks

structure Sound (segments : List Segment) : Prop where
  olds : ∀ old hunk, .placed old hunk ∈ segments → old.map unified = hunk.oldLines
  clean : ∀ old hunk, .placed old hunk ∈ segments → hunk.Clean

theorem current_kept (old : List Line) : current (old.map .kept) = old.map unified := by
  unfold current
  rw [List.flatMap_map]
  exact List.map_eq_flatMap.symm

theorem original_kept (old : List Line) : original (old.map .kept) = old := by
  unfold original
  rw [List.flatMap_map]
  exact List.flatMap_singleton' old

theorem current_append (segments segments' : List Segment)
    : current (segments ++ segments') = current segments ++ current segments' :=
  List.flatMap_append

theorem original_append (segments segments' : List Segment)
    : original (segments ++ segments') = original segments ++ original segments' :=
  List.flatMap_append

theorem hasAt_of_findHunkStart {lines old : List Line} {start : Nat} (h : findHunkStart lines hunk old = some start)
    : hasAt lines old start = true := by
  unfold findHunkStart at h
  dsimp only at h
  split at h
  . next hexpected =>
    cases h
    exact hexpected
  . split at h
    . next hnil =>
      rw [hnil]
      rfl
    . exact List.find?_some h

theorem placedHunks_kept (above below : List Segment) (old : List Line)
    : placedHunks (above ++ (old.map .kept ++ below)) = placedHunks above ++ placedHunks below := by
  unfold placedHunks
  rw [List.filterMap_append, List.filterMap_append, List.filterMap_map]
  simp

theorem placedHunks_placed (above below : List Segment) (old : List Line) (hunk : PatchHunk)
    : placedHunks (above ++ .placed old hunk :: below) = placedHunks above ++ hunk :: placedHunks below :=
  List.filterMap_append

theorem applyHunk_of_found {lines : List Line} {start : Nat} (h : findHunkStart lines hunk hunk.oldLines = some start)
    : applyHunk ⟨lines, failed⟩ hunk =
      ⟨lines.take start ++ (hunk.newLines ++ lines.drop (start + hunk.oldLines.length)), failed⟩ := by
  unfold applyHunk
  simp only [h]

theorem applyHunk_placed {above below : List Segment} {old : List Line} {start : Nat}
    (h : findHunkStart (current (above ++ (old.map .kept ++ below))) hunk hunk.oldLines = some start)
    (hstart : (current above).length = min start (current (above ++ (old.map .kept ++ below))).length)
    (hlength : old.length = hunk.oldLines.length)
    : old.map unified = hunk.oldLines ∧
      applyHunk ⟨current (above ++ (old.map .kept ++ below)), failed⟩ hunk =
        ⟨current (above ++ .placed old hunk :: below), failed⟩ := by
  have hplaced : current (above ++ .placed old hunk :: below) = current above ++ (hunk.newLines ++ current below) :=
    current_append above _
  have hhas := of_decide_eq_true (hasAt_of_findHunkStart h)
  rw [applyHunk_of_found h, hplaced]
  simp only [current_append, current_kept] at hhas hstart ⊢
  by_cases hwithin : start ≤ (current above ++ (old.map unified ++ current below)).length
  . rw [min_eq_left hwithin] at hstart
    subst hstart
    rw [List.drop_left, ← hlength, List.take_left' (by simp)] at hhas
    refine ⟨hhas, ?_⟩
    rw [List.take_left, ← List.drop_drop, List.drop_left, ← hhas, List.drop_left]
  . -- Only lines that are added to the end of the file are found behind it.
    have hbeyond := Nat.le_of_lt (Nat.lt_of_not_le hwithin)
    rw [min_eq_right hbeyond, List.length_append, left_eq_add, List.length_append, Nat.add_eq_zero_iff,
      List.length_map, List.length_eq_zero_iff, List.length_eq_zero_iff] at hstart
    obtain ⟨rfl, hbelow⟩ := hstart
    have hnil : hunk.oldLines = [] := List.length_eq_zero_iff.mp hlength.symm
    rw [hnil]
    refine ⟨rfl, ?_⟩
    rw [List.take_of_length_le hbeyond, List.drop_of_length_le (Nat.le_add_right_of_le hbeyond), hbelow]
    simp

theorem failed_foldl {applying : Applying} (h : applying.failed ≠ []) (hunks : List PatchHunk)
    : (hunks.foldl applyHunk applying).failed ≠ [] := by
  induction hunks generalizing applying with
  | nil => exact h
  | cons hunk hunks ih =>
    apply ih
    unfold applyHunk
    dsimp only
    split
    . simp
    . exact h

theorem Sound.placeHunk {above below : List Segment} {old : List Line}
    (h : Sound (above ++ (old.map .kept ++ below))) (hold : old.map unified = hunk.oldLines) (hclean : hunk.Clean)
    : Sound (above ++ .placed old hunk :: below) := by
  have hmem {old' : List Line} {hunk' : PatchHunk} (hplaced : .placed old' hunk' ∈ above ++ .placed old hunk :: below)
      : (old' = old ∧ hunk' = hunk) ∨ .placed old' hunk' ∈ above ++ (old.map .kept ++ below) := by
    simp only [List.mem_append, List.mem_cons, Segment.placed.injEq] at hplaced ⊢
    tauto
  constructor
  . intro old' hunk' hplaced
    rcases hmem hplaced with ⟨rfl, rfl⟩ | hplaced
    . exact hold
    . exact h.olds old' hunk' hplaced
  . intro old' hunk' hplaced
    rcases hmem hplaced with ⟨rfl, rfl⟩ | hplaced
    . exact hclean
    . exact h.clean old' hunk' hplaced

theorem foldl_untouched (h : Untouched ending segments hunks) (hsound : Sound segments)
    (hclean : ∀ hunk ∈ hunks, hunk.Clean)
    : (hunks.foldl applyHunk ⟨current segments, []⟩).failed ≠ [] ∨
      ∃ final, hunks.foldl applyHunk ⟨current segments, []⟩ = ⟨current final, []⟩ ∧
        original final = original segments ∧ (placedHunks final).Perm (hunks ++ placedHunks segments) ∧
        Sound final ∧ ∀ line, .kept line ∈ final → Kept ending line := by
  induction hunks generalizing segments with
  | nil => exact .inr ⟨segments, rfl, rfl, .refl _, hsound, h⟩
  | cons hunk hunks ih =>
    have hhunk := hclean hunk List.mem_cons_self
    rw [List.foldl_cons]
    cases hfind : findHunkStart (current segments) hunk hunk.oldLines with
    | none =>
      left
      apply failed_foldl
      unfold applyHunk
      simp [hfind]
    | some start =>
      obtain ⟨above, old, below, rfl, hstart, hlength, hrest⟩ := h start hfind
      obtain ⟨hold, happlied⟩ := @applyHunk_placed hunk [] _ _ _ _ hfind hstart hlength
      rw [happlied]
      rcases ih hrest (hsound.placeHunk hold hhunk) (fun hunk' hmem => hclean hunk' (List.mem_cons_of_mem _ hmem))
        with hfailed | ⟨final, hfold, horiginal, hperm, hfinal, hkept⟩
      . exact .inl hfailed
      . refine .inr ⟨final, hfold, ?_, ?_, hfinal, hkept⟩
        . rw [horiginal, original_append, original_append, original_append, original_kept]
          rfl
        . refine hperm.trans ?_
          rw [placedHunks_kept, placedHunks_placed, ← List.append_assoc, List.cons_append, ← List.append_assoc]
          exact List.perm_middle

theorem Sound.tail {segment : Segment} (h : Sound (segment :: segments)) : Sound segments :=
  ⟨fun old hunk hmem => h.olds old hunk (List.mem_cons_of_mem _ hmem),
    fun old hunk hmem => h.clean old hunk (List.mem_cons_of_mem _ hmem)⟩

theorem notMem_current (hsound : Sound segments) : '\r' ∉ (current segments).flatten := by
  induction segments with
  | nil => exact List.not_mem_nil
  | cons segment segments ih =>
    have hrest := ih hsound.tail
    cases segment with
    | kept line =>
      have hcurrent : (current (.kept line :: segments)).flatten = unified line ++ (current segments).flatten := rfl
      rw [hcurrent, List.mem_append, not_or]
      exact ⟨notMem_unified line, hrest⟩
    | placed old hunk =>
      have hcurrent : current (.placed old hunk :: segments) = hunk.newLines ++ current segments := rfl
      rw [hcurrent, List.flatten_append, List.mem_append, not_or]
      exact ⟨notMem_newLines (hsound.clean old hunk List.mem_cons_self), hrest⟩

theorem applied_segments (hsound : Sound segments) (hkept : ∀ line, .kept line ∈ segments → Kept ending line)
    : Applied ending (original segments) (withEnding ending (current segments).flatten) (placedHunks segments) := by
  induction segments with
  | nil =>
    have hnil : withEnding ending [] = [] := by
      unfold withEnding
      split <;> rfl
    have hrest : Applied ending [] (withEnding ending []) [] := by
      rw [hnil]
      exact .rest []
    exact hrest
  | cons segment segments ih =>
    have hrest := ih hsound.tail (fun line hmem => hkept line (List.mem_cons_of_mem _ hmem))
    cases segment with
    | kept line =>
      have hcurrent : (current (.kept line :: segments)).flatten = unified line ++ (current segments).flatten := rfl
      have hline : withEnding ending (unified line) = line := hkept line List.mem_cons_self
      rw [hcurrent, withEnding_append, hline]
      exact hrest.keep line
    | placed old hunk =>
      have hcurrent : current (.placed old hunk :: segments) = hunk.newLines ++ current segments := rfl
      rw [hcurrent, List.flatten_append, withEnding_append]
      have hhunk : Applied ending ([] ++ (old ++ original segments)) ([].flatten ++
          (withEnding ending hunk.newLines.flatten ++ withEnding ending (current segments).flatten))
          (hunk :: placedHunks segments) := .hunk (hsound.olds old hunk List.mem_cons_self) hrest
      exact hhunk

theorem applyPatch_accepted (h : Accepted place patch strip)
    : applyPatch place content patch strip =
      let applying := applyHunks ((readlines content).map unified) (parseUnifiedDiff patch).hunks
      if applying.failed ≠ [] then .patchApplyFailed applying.failed
      else .applied (normalizeLineEndings applying.lines.flatten (detectLineEnding content))
        (parseUnifiedDiff patch).hunks.length (detectLineEnding content) := by
  obtain ⟨hne, hcount, htarget⟩ := h
  have hcontent : (readlines content).flatten = content := Lines.flatten_pieces content
  have hunified : (readlines content).map unified = (readlines content).map (normalizeLineEndings · (some .lf)) := rfl
  unfold applyPatch
  simp [hcontent, hne, hcount, htarget, hunified]

def bottomUp (hunks : List PatchHunk) : List PatchHunk :=
  hunks.mergeSort (fun hunk hunk' => hunk'.oldStart ≤ hunk.oldStart)

theorem applied_of_untouched (haccepted : Accepted place patch strip)
    (h : Untouched (detectLineEnding content) ((readlines content).map .kept) (bottomUp (parseUnifiedDiff patch).hunks))
    : (∃ failed, applyPatch place content patch strip = .patchApplyFailed failed) ∨
      ∃ content' hunks, hunks.Perm (parseUnifiedDiff patch).hunks ∧
        Applied (detectLineEnding content) (readlines content) content' hunks ∧
        applyPatch place content patch strip =
          .applied content' (parseUnifiedDiff patch).hunks.length (detectLineEnding content) := by
  have hclean : ∀ hunk ∈ bottomUp (parseUnifiedDiff patch).hunks, hunk.Clean := by
    intro hunk hmem
    exact clean_parse patch hunk (List.mem_mergeSort.mp hmem)
  have hsound : Sound ((readlines content).map .kept) := ⟨by simp, by simp⟩
  have hlines := current_kept (readlines content)
  rw [applyPatch_accepted haccepted]
  unfold applyHunks
  rcases foldl_untouched h hsound hclean with hfailed | ⟨final, hfold, horiginal, hperm, hfinal, hkept⟩
  . rw [hlines] at hfailed
    left
    exact ⟨_, if_pos hfailed⟩
  . rw [hlines] at hfold
    right
    have happlied := applied_segments hfinal hkept
    rw [horiginal, original_kept] at happlied
    refine ⟨_, placedHunks final, ?_, happlied, ?_⟩
    . have hnone : placedHunks ((readlines content).map .kept) = [] := by simp [placedHunks]
      rw [hnone, List.append_nil] at hperm
      exact hperm.trans (List.mergeSort_perm _ _)
    . unfold bottomUp at hfold
      dsimp only
      rw [hfold, normalizeLineEndings_withEnding (notMem_current hfinal)]
      rfl

def Succeeds (place : Place) (content patch : List Char) (strip : Int) : Prop :=
  ∃ content' hunksApplied ending, applyPatch place content patch strip = .applied content' hunksApplied ending

theorem patchFile_applied {newContent : List Char} {hunksApplied : Nat} {ending : Option LineEnding} {calls : Calls}
    (h : applyPatch place content patch strip = .applied newContent hunksApplied ending)
    : patchFile calls place content patch strip =
      if !calls.replaced then (content, none)
      else if !calls.synced then (newContent, none)
      else (newContent, some (.applied newContent hunksApplied ending)) := by
  unfold patchFile atomicWriteText
  rw [h]
  obtain ⟨replaced, synced⟩ := calls
  cases replaced <;> cases synced <;> rfl

theorem appliesExactly_of_not_succeeds {calls : Calls} (h : ¬Succeeds place content patch strip)
    : AppliesExactly calls place content patch strip := by
  unfold AppliesExactly patchFile
  generalize hresult : applyPatch place content patch strip = result
  cases result with
  | applied content' hunksApplied ending => exact absurd ⟨content', hunksApplied, ending, hresult⟩ h
  | invalidPatch => rfl
  | patchTargetMismatch => rfl
  | patchApplyFailed failed => rfl

theorem accepted_of_succeeds (h : Succeeds place content patch strip) : Accepted place patch strip := by
  obtain ⟨content', hunksApplied, ending, hpatch⟩ := h
  unfold applyPatch at hpatch
  dsimp only at hpatch
  split at hpatch
  . cases hpatch
  . next hheader =>
    split at hpatch
    . cases hpatch
    . next htarget =>
      simp only [Bool.or_eq_true, decide_eq_true_eq, not_or, not_not] at hheader
      exact ⟨hheader.1, hheader.2, by simpa using htarget⟩

/--
An error before the file is replaced leaves it as it is. An error behind that leaves it where the patch changes
nothing. Otherwise a patch whose hunks have their own places is applied exactly where its headers tell the truth
about the bodies.
-/
theorem appliesExactly_iff {calls : Calls}
    : (¬Succeeds place content patch strip ∨ calls.replaced = false → AppliesExactly calls place content patch strip) ∧
      (calls.replaced = true → calls.synced = false →
        (AppliesExactly calls place content patch strip ↔
          ∀ content' hunksApplied ending,
            applyPatch place content patch strip = .applied content' hunksApplied ending → content' = content)) ∧
      (calls.replaced = true → calls.synced = true →
        Untouched (detectLineEnding content) ((readlines content).map .kept) (bottomUp (parseUnifiedDiff patch).hunks) →
        (AppliesExactly calls place content patch strip ↔
          (Succeeds place content patch strip → ∀ hunk ∈ (parseUnifiedDiff patch).hunks, hunk.Declared))) := by
  by_cases hsucceeds : Succeeds place content patch strip
  . have haccepted := accepted_of_succeeds hsucceeds
    obtain ⟨content', hunksApplied, ending, hpatch⟩ := hsucceeds
    have hfile := @patchFile_applied place content patch strip _ _ _ calls hpatch
    refine ⟨?_, ?_, ?_⟩
    . rintro (hnot | hreplaced)
      . exact absurd ⟨_, _, _, hpatch⟩ hnot
      . unfold AppliesExactly
        rw [hfile, hreplaced]
        rfl
    . intro hreplaced hsynced
      unfold AppliesExactly
      rw [hfile, hreplaced, hsynced, hpatch]
      simp
    . intro hreplaced hsynced huntouched
      rcases applied_of_untouched haccepted huntouched with ⟨failed, hfailed⟩ | ⟨_, hunks, hperm, happlied, hresult⟩
      . rw [hpatch] at hfailed
        cases hfailed
      . rw [hpatch] at hresult
        cases hresult
        unfold AppliesExactly
        rw [hfile, hreplaced, hsynced]
        constructor
        . rintro ⟨hdeclared, -⟩ -
          exact hdeclared
        . intro hdeclared
          exact ⟨hdeclared ⟨_, _, _, hpatch⟩, hunks, hperm, happlied⟩
  . have hexact : AppliesExactly calls place content patch strip := appliesExactly_of_not_succeeds hsucceeds
    refine ⟨fun _ => hexact, fun _ _ => iff_of_true hexact ?_, fun _ _ _ => iff_of_true hexact ?_⟩
    . exact fun content' hunksApplied ending hpatch => absurd ⟨_, _, _, hpatch⟩ hsucceeds
    . exact fun h => absurd h hsucceeds

theorem replaced_lines_exact
    : AppliesExactly ⟨true, true⟩ filePlace "x\r\ny\r\nz\r\n".toList
      "--- f\n+++ f\n@@ -3 +3,2 @@\n-z\n+w\n+v\n@@ -1 +0,0 @@\n-x\n".toList 0 := by
  have hhunks : (parseUnifiedDiff "--- f\n+++ f\n@@ -3 +3,2 @@\n-z\n+w\n+v\n@@ -1 +0,0 @@\n-x\n".toList).hunks =
      [⟨2, 1, 2, 2, [⟨'-', ['z'], true⟩, ⟨'+', ['w'], true⟩, ⟨'+', ['v'], true⟩]⟩,
        ⟨0, 1, -1, 0, [⟨'-', ['x'], true⟩]⟩] := by decide +kernel
  refine (appliesExactly_iff.2.2 rfl rfl ?_).mpr ?_
  . rw [hhunks]
    unfold bottomUp
    rw [List.mergeSort_of_pairwise (by decide)]
    intro start hstart
    have hlast : (some 2 : Option Nat) = some start := by
      rw [← hstart]
      decide +kernel
    cases hlast
    refine ⟨[.kept "x\r\n".toList, .kept "y\r\n".toList], ["z\r\n".toList], [], by rfl, by decide +kernel,
      by decide +kernel, ?_⟩
    intro start hstart
    have hfirst : (some 0 : Option Nat) = some start := by
      rw [← hstart]
      decide +kernel
    cases hfirst
    refine ⟨[], ["x\r\n".toList], _, by rfl, by decide +kernel, by decide +kernel, ?_⟩
    intro line hline
    have hmiddle : line = "y\r\n".toList := by simpa using hline
    rw [hmiddle]
    unfold Kept
    decide +kernel
  . rw [hhunks]
    intro _ hunk hmem
    rcases List.mem_pair.mp hmem with rfl | rfl
    . unfold PatchHunk.Declared
      decide +kernel
    . unfold PatchHunk.Declared
      decide +kernel

/--
The body of the hunk ends at the blank line, and its last line is left out.
-/
theorem blank_line_ends_hunk : ¬∀ calls place content patch strip, AppliesExactly calls place content patch strip := by
  intro h
  have hexact := h ⟨true, true⟩ filePlace "x\n\ny\n".toList "--- f\n+++ f\n@@ -1,3 +1,2 @@\n-x\n+z\n\n-y\n".toList 0
  have hhunks : (parseUnifiedDiff "--- f\n+++ f\n@@ -1,3 +1,2 @@\n-x\n+z\n\n-y\n".toList).hunks =
      [⟨0, 3, 0, 2, [⟨'-', ['x'], true⟩, ⟨'+', ['z'], true⟩]⟩] := by decide +kernel
  have haccepted : Accepted filePlace "--- f\n+++ f\n@@ -1,3 +1,2 @@\n-x\n+z\n\n-y\n".toList 0 := by
    unfold Accepted
    decide +kernel
  have hpatch : applyPatch filePlace "x\n\ny\n".toList "--- f\n+++ f\n@@ -1,3 +1,2 @@\n-x\n+z\n\n-y\n".toList 0 =
      .applied "z\n\ny\n".toList 1 (some .lf) := by
    rw [applyPatch_accepted haccepted, hhunks]
    unfold applyHunks
    rw [List.mergeSort_singleton]
    decide +kernel
  unfold AppliesExactly at hexact
  rw [patchFile_applied hpatch, hhunks] at hexact
  have hdeclared := hexact.1 _ List.mem_cons_self
  unfold PatchHunk.Declared at hdeclared
  exact absurd hdeclared (by decide +kernel)

end Runs

end Patch
end Sandbox
end MemStack
