import MemStack.Sandbox.Patch
import MemStack.Util.Lines

/-!
This module contains the application of a unified diff to the text that it is about.
-/

namespace MemStack
namespace Sandbox
namespace Patch

open UnifiedDiff (Op Block Line Diff olds news source target)

section Headers

variable {n offset count : Nat} {c : Char} {ds rest : List Char}

theorem decimalValue_of_isDigit (h : c.isDigit = true) : decimalValue c = some (c.toNat - '0'.toNat) := by
  rw [Char.isDigit_iff_toNat] at h
  unfold decimalValue decimalZeros
  have hzero : '0'.toNat = 48 ∧ '9'.toNat = 57 := by decide
  rw [List.find?_cons_of_pos]
  . rfl
  . simp only [Bool.and_eq_true, decide_eq_true_eq]
    omega

theorem foldl_decimalValue (h : ∀ c ∈ ds, c.isDigit = true) (n : Nat)
    : ds.foldl (fun n c => 10 * n + (decimalValue c).getD 0) n = Nat.ofDigitChars 10 ds n := by
  rw [Nat.ofDigitChars_eq_foldl]
  induction ds generalizing n with
  | nil => rfl
  | cons d ds ih =>
    rw [List.foldl_cons, List.foldl_cons, decimalValue_of_isDigit (h d List.mem_cons_self), Option.getD_some]
    exact ih (fun c hc => h c (List.mem_cons_of_mem _ hc)) _

theorem matchNumber_toDigits (n : Nat) (hc : decimalValue c = none) (rest : List Char)
    : matchNumber (Nat.toDigits 10 n ++ c :: rest) = some (n, c :: rest) := by
  have hdigits : ∀ d ∈ Nat.toDigits 10 n, d.isDigit = true := by
    intro d hd
    exact Nat.isDigit_of_mem_toDigits (by decide) (by decide) hd
  have htake : (Nat.toDigits 10 n ++ c :: rest).takeWhile (fun c => (decimalValue c).isSome) = Nat.toDigits 10 n := by
    rw [List.takeWhile_append_of_pos, List.takeWhile_cons_of_neg, List.append_nil]
    . simp [hc]
    . intro d hd
      rw [decimalValue_of_isDigit (hdigits d hd)]
      rfl
  unfold matchNumber
  simp only [htake]
  rw [if_neg Nat.toDigits_ne_nil, foldl_decimalValue hdigits, Nat.ofDigitChars_ten_toDigits, List.drop_left]

theorem matchRange_rangeText (offset count : Nat) (short : Bool) (hrest : ∃ r, rest = ' ' :: r)
    : matchRange (UnifiedDiff.rangeText offset count short ++ rest) =
      some ((if count = 0 then offset else offset + 1, count), rest) := by
  obtain ⟨r, rfl⟩ := hrest
  have hspace : decimalValue ' ' = none := by decide
  have hcomma : decimalValue ',' = none := by decide
  have hstart : (count = 1 && short) = true → (if count = 0 then offset else offset + 1) ≠ 0 := by
    intro hshort
    rw [Bool.and_eq_true, decide_eq_true_eq] at hshort
    rw [hshort.1]
    exact Nat.succ_ne_zero offset
  unfold UnifiedDiff.rangeText matchRange
  generalize (if count = 0 then offset else offset + 1) = start at hstart ⊢
  by_cases hshort : (count = 1 && short) = true
  . have hcount : count = 1 := by
      rw [Bool.and_eq_true, decide_eq_true_eq] at hshort
      exact hshort.1
    rw [if_pos hshort, matchNumber_toDigits _ hspace]
    simp [hstart hshort, hcount]
  . rw [if_neg hshort, List.append_assoc, List.cons_append, matchNumber_toDigits _ hcomma]
    simp [matchNumber_toDigits _ hspace]

theorem matchLiteral_append (literal rest : List Char) : matchLiteral literal (literal ++ rest) = some rest := by
  unfold matchLiteral
  rw [if_pos (List.isPrefixOf_iff_prefix.mpr (List.prefix_append _ _)), List.drop_left]

def headerHunk (old new : Nat) (block : Block Line) : PatchHunk where
  oldStart := (if (olds block.ops).length = 0 then old else old + 1 : Nat) - 1
  oldCount := (olds block.ops).length
  newStart := (if (news block.ops).length = 0 then new else new + 1 : Nat) - 1
  newCount := (news block.ops).length
  lines := []

theorem matchHunkHeader_headerText (old new : Nat) (block : Block Line)
    : matchHunkHeader (UnifiedDiff.headerText old new block) = some (headerHunk old new block) := by
  have hplus (l : List Char) : ∃ r, " +".toList ++ l = ' ' :: r := ⟨'+' :: l, rfl⟩
  have hat (l : List Char) : ∃ r, " @@".toList ++ l = ' ' :: r := ⟨'@' :: '@' :: l, rfl⟩
  unfold matchHunkHeader UnifiedDiff.headerText
  rw [matchLiteral_append]
  simp only [Option.bind_eq_bind, Option.bind_some, matchRange_rangeText _ _ _ (hplus _), matchLiteral_append,
    matchRange_rangeText _ _ _ (hat _)]
  rfl

end Headers

section Parsed

variable {hunk : PatchHunk} {parsed : ParsedPatch} {parser : Parser} {line : Line} {symbol : Char} {d : Diff}
variable {ops : List (Op Line)} {blocks : List (Block Line)} {old new : Nat}

def patchLine (symbol : Char) (line : Line) : PatchHunkLine :=
  if line.getLast? = some '\n' then ⟨symbol, line.dropLast, true⟩ else ⟨symbol, line, false⟩

def opLine : Op Line → PatchHunkLine
  | .keep line => patchLine ' ' line
  | .remove line => patchLine '-' line
  | .add line => patchLine '+' line

def patchHunk (old new : Nat) (block : Block Line) : PatchHunk :=
  { headerHunk old new block with lines := block.ops.map opLine }

def patchHunks (old new : Nat) : List (Block Line) → List PatchHunk
  | [] => []
  | block :: blocks =>
    let old := old + block.gap.length
    let new := new + block.gap.length
    patchHunk old new block ::
      patchHunks (old + (olds block.ops).length) (new + (news block.ops).length) blocks

theorem render_patchLine (symbol : Char) (line : Line) : (patchLine symbol line).render = line := by
  unfold patchLine PatchHunkLine.render
  split
  . next hlast => exact List.dropLast_append_getLast? '\n' hlast
  . exact List.append_nil line

theorem operation_patchLine (symbol : Char) (line : Line) : (patchLine symbol line).operation = symbol := by
  unfold patchLine
  split <;> rfl

def NoFileHeader (ops : List (Op Line)) : Prop :=
  ∀ line, Op.remove line ∈ ops → ¬"-- ".toList <+: line

theorem readLine_operation {text : List Char} (hsymbol : isOperation symbol = true)
    (htext : symbol = '-' → ¬"-- ".toList <+: text)
    : readLine ⟨.hunk hunk, parsed⟩ (symbol :: text) =
      ⟨.hunk { hunk with lines := hunk.lines ++ [⟨symbol, text, true⟩] }, parsed⟩ := by
  have hnot : ("@@".toList.isPrefixOf (symbol :: text) || "--- ".toList.isPrefixOf (symbol :: text)) = false ∧
      "\\ ".toList.isPrefixOf (symbol :: text) = false := by
    simp only [isOperation, Bool.or_eq_true, decide_eq_true_eq] at hsymbol
    rcases hsymbol with (rfl | rfl) | rfl
    . exact ⟨rfl, rfl⟩
    . exact ⟨rfl, rfl⟩
    . have hbegins : "-- ".toList.isPrefixOf text = false := by
        rw [Bool.eq_false_iff, ne_eq, List.isPrefixOf_iff_prefix]
        exact htext rfl
      exact ⟨hbegins, rfl⟩
  unfold readLine
  simp only [hnot.1, hnot.2, hsymbol]
  rfl

theorem foldl_lineTexts (hsymbol : isOperation symbol = true) (hline : symbol = '-' → ¬"-- ".toList <+: line)
    : (UnifiedDiff.lineTexts symbol line).foldl readLine ⟨.hunk hunk, parsed⟩ =
      ⟨.hunk { hunk with lines := hunk.lines ++ [patchLine symbol line] }, parsed⟩ := by
  unfold UnifiedDiff.lineTexts patchLine
  split
  . next hlast =>
    apply readLine_operation hsymbol
    intro hminus hbegins
    exact hline hminus (hbegins.trans (List.dropLast_prefix line))
  . rw [List.foldl_cons, readLine_operation hsymbol hline]
    have hmark : readLine ⟨.hunk { hunk with lines := hunk.lines ++ [⟨symbol, line, true⟩] }, parsed⟩
        UnifiedDiff.noNewline =
        ⟨.hunk { hunk with lines := markLast (hunk.lines ++ [⟨symbol, line, true⟩]) }, parsed⟩ := rfl
    rw [List.foldl_cons, List.foldl_nil, hmark]
    simp [markLast]

theorem foldl_opTexts (h : NoFileHeader ops)
    : (ops.flatMap UnifiedDiff.opTexts).foldl readLine ⟨.hunk hunk, parsed⟩ =
      ⟨.hunk { hunk with lines := hunk.lines ++ ops.map opLine }, parsed⟩ := by
  induction ops generalizing hunk with
  | nil =>
    rw [List.map_nil, List.append_nil]
    rfl
  | cons op ops ih =>
    have hop : (UnifiedDiff.opTexts op).foldl readLine ⟨.hunk hunk, parsed⟩ =
        ⟨.hunk { hunk with lines := hunk.lines ++ [opLine op] }, parsed⟩ := by
      cases op with
      | keep line => exact foldl_lineTexts rfl (fun hminus => absurd hminus (by decide))
      | remove line => exact foldl_lineTexts rfl (fun _ => h line List.mem_cons_self)
      | add line => exact foldl_lineTexts rfl (fun hminus => absurd hminus (by decide))
    rw [List.flatMap_cons, List.foldl_append, hop, ih (fun line hmem => h line (List.mem_cons_of_mem _ hmem))]
    simp

theorem readLine_headerText (hreading : parser.reading ≠ .header) (block : Block Line)
    : readLine parser (UnifiedDiff.headerText old new block) = ⟨.hunk (headerHunk old new block), parser.finish⟩ := by
  have hfile : "--- ".toList.isPrefixOf (UnifiedDiff.headerText old new block) = false := rfl
  have hat : "@@".toList.isPrefixOf (UnifiedDiff.headerText old new block) = true := rfl
  have houter (parsed : ParsedPatch)
      : readOuter parsed (UnifiedDiff.headerText old new block) = ⟨.hunk (headerHunk old new block), parsed⟩ := by
    unfold readOuter
    simp only [hfile, matchHunkHeader_headerText]
    rfl
  obtain ⟨reading, parsed⟩ := parser
  cases reading with
  | outer => exact houter parsed
  | header => exact absurd rfl hreading
  | hunk hunk =>
    unfold readLine
    simp only [hat, Bool.true_or, if_true]
    exact houter (closeHunk parsed hunk)

theorem foldl_blockTexts (hreading : parser.reading ≠ .header) (h : ∀ block ∈ blocks, NoFileHeader block.ops)
    : ((UnifiedDiff.blockTexts old new blocks).foldl readLine parser).finish =
      { parser.finish with hunks := parser.finish.hunks ++ patchHunks old new blocks } := by
  induction blocks generalizing parser old new with
  | nil => simp [UnifiedDiff.blockTexts, patchHunks]
  | cons block blocks ih =>
    unfold UnifiedDiff.blockTexts patchHunks
    rw [List.foldl_cons, readLine_headerText hreading, List.foldl_append, foldl_opTexts (h block List.mem_cons_self),
      ih (by simp) (fun b hb => h b (List.mem_cons_of_mem _ hb))]
    simp [Parser.finish, closeHunk, patchHunk, headerHunk]

theorem foldl_texts (h : ∀ block ∈ d.blocks, NoFileHeader block.ops)
    : (d.texts.foldl readLine ⟨.outer, ⟨none, none, 0, []⟩⟩).finish =
      ⟨extractPatchPath d.oldFile, extractPatchPath d.newFile, 1, patchHunks 0 0 d.blocks⟩ := by
  have hheaders : readLine (readLine ⟨.outer, ⟨none, none, 0, []⟩⟩ ("--- ".toList ++ d.oldFile))
      ("+++ ".toList ++ d.newFile) =
      ⟨.outer, ⟨extractPatchPath d.oldFile, extractPatchPath d.newFile, 1, []⟩⟩ := rfl
  unfold UnifiedDiff.Diff.texts
  rw [List.foldl_cons, List.foldl_cons, hheaders, foldl_blockTexts (by simp) h]
  rfl

end Parsed

section Texts

variable {text content : List Char} {texts : List (List Char)} {ending : Option LineEnding}

theorem dropBoundary_concat (h : ∀ c ∈ text, isLineBoundary c = false) : dropBoundary (text ++ ['\n']) = text := by
  have hnot : ['\r', '\n'].isSuffixOf (text ++ ['\n']) = false := by
    rw [Bool.eq_false_iff, ne_eq, List.isSuffixOf_iff_suffix]
    rintro ⟨u, hu⟩
    rw [show ['\r', '\n'] = ['\r'] ++ ['\n'] from rfl, ← List.append_assoc, List.append_cancel_right_eq] at hu
    have hboundary := h '\r' (by rw [← hu]; simp)
    exact absurd hboundary (by decide)
  unfold dropBoundary
  rw [hnot, List.getLast?_concat, List.dropLast_concat]
  rfl

theorem splitlines_texts (h : ∀ text ∈ texts, ∀ c ∈ text, isLineBoundary c = false)
    : splitlines (texts.flatMap (· ++ ['\n'])) = texts := by
  induction texts with
  | nil => rfl
  | cons text texts ih =>
    have htext := h text List.mem_cons_self
    have hpieces : Lines.pieces (cutAt isLineBoundary) (text ++ '\n' :: texts.flatMap (· ++ ['\n'])) =
        (text ++ ['\n']) :: Lines.pieces (cutAt isLineBoundary) (texts.flatMap (· ++ ['\n'])) := by
      apply Lines.pieces_append_cons
      . intro u b v heq
        unfold cutAt
        rw [htext b (by rw [heq]; simp), Bool.false_and]
      . rfl
    have hrest := ih (fun t ht => h t (List.mem_cons_of_mem _ ht))
    unfold splitlines at hrest ⊢
    rw [List.flatMap_cons, List.append_assoc, List.singleton_append, hpieces, List.map_cons,
      dropBoundary_concat htext, hrest]

theorem readlines_eq (h : '\r' ∉ content) : readlines content = Lines.pieces (Lines.after '\n') content := by
  unfold readlines
  induction content with
  | nil => rfl
  | cons c content ih =>
    rw [List.mem_cons, not_or] at h
    have hcut : cutAt (fun c => c = '\n' || c = '\r') c content = Lines.after '\n' c content := by
      simp [cutAt, Lines.after, Ne.symm h.1]
    unfold Lines.pieces
    rw [hcut, ih h.2]

theorem normalizeLineEndings_lf (h : '\r' ∉ text) : normalizeLineEndings text (some .lf) = text := by
  unfold normalizeLineEndings
  dsimp only
  rw [Substitution.replace_of_notMem h, Substitution.replace_of_notMem h]

theorem detectLineEnding_ne_crlf (h : '\r' ∉ content) : detectLineEnding content ≠ some .crlf := by
  have hnot : hasPart ['\r', '\n'] (content.take 4096) = false := by
    unfold hasPart
    rw [List.any_eq_false]
    intro tail htail hbegins
    rw [List.mem_tails] at htail
    have hmem := (List.isPrefixOf_iff_prefix.mp hbegins).subset (List.mem_cons_self : '\r' ∈ ['\r', '\n'])
    exact h (List.mem_of_mem_take (htail.subset hmem))
  unfold detectLineEnding
  simp only [hnot, Bool.false_eq_true, if_false]
  split <;> simp

theorem normalizeLineEndings_eq (h : '\r' ∉ text) (hending : ending ≠ some .crlf)
    : normalizeLineEndings text ending = text := by
  cases ending with
  | none => rfl
  | some ending =>
    cases ending with
    | lf => exact normalizeLineEndings_lf h
    | crlf => exact absurd rfl hending

end Texts

section Hunks

variable {blocks : List (Block Line)} {tail front rest : List Line} {old new n : Nat} {hunk : PatchHunk}
variable {first : Bool} {failed : List PatchHunk} {ops : List (Op Line)}

def cut (block : Block Line) : Nat :=
  if olds block.ops = [] then block.gap.length - 1 else block.gap.length

def written (tail : List Line) : List (Block Line) → List Line
  | [] => tail
  | block :: blocks =>
    block.gap.take (cut block) ++ (news block.ops ++ (block.gap.drop (cut block) ++ written tail blocks))

theorem oldLines_patchHunk (old new : Nat) (block : Block Line)
    : (patchHunk old new block).oldLines = olds block.ops := by
  have hops (ops : List (Op Line)) : ((ops.map opLine).filter
      (fun line => line.operation = ' ' || line.operation = '-')).map PatchHunkLine.render = olds ops := by
    induction ops with
    | nil => rfl
    | cons op ops ih => cases op <;> simp [opLine, operation_patchLine, render_patchLine, ih, olds]
  exact hops block.ops

theorem newLines_patchHunk (old new : Nat) (block : Block Line)
    : (patchHunk old new block).newLines = news block.ops := by
  have hops (ops : List (Op Line)) : ((ops.map opLine).filter
      (fun line => line.operation = ' ' || line.operation = '+')).map PatchHunkLine.render = news ops := by
    induction ops with
    | nil => rfl
    | cons op ops ih => cases op <;> simp [opLine, operation_patchLine, render_patchLine, ih, news]
  exact hops block.ops

theorem source_cut (block : Block Line) (rest : List Line)
    : block.gap ++ (olds block.ops ++ rest) =
      block.gap.take (cut block) ++ (olds block.ops ++ (block.gap.drop (cut block) ++ rest)) := by
  unfold cut
  split
  . next hnil => rw [hnil, List.nil_append, List.nil_append, ← List.append_assoc, List.take_append_drop]
  . rw [List.take_length, List.drop_length, List.nil_append]

theorem toNat_oldStart {block : Block Line} (h : old ≠ 0 → block.gap ≠ [])
    : (patchHunk (old + block.gap.length) new block).oldStart.toNat = old + cut block := by
  have hpos : old = 0 ∨ 0 < block.gap.length := by
    by_cases hold : old = 0
    . exact .inl hold
    . exact .inr (List.length_pos_iff.mpr (h hold))
  unfold patchHunk headerHunk cut
  simp only [List.length_eq_zero_iff]
  split <;> omega

theorem findHunkStart_of_hasAt {current l : List Line} (h : hasAt current l hunk.oldStart.toNat = true)
    : findHunkStart current hunk l = some hunk.oldStart.toNat := by
  unfold findHunkStart
  simp only [h, if_true]

theorem applyHunk_at (hstart : hunk.oldStart.toNat = front.length)
    : applyHunk ⟨front ++ (hunk.oldLines ++ rest), failed⟩ hunk = ⟨front ++ (hunk.newLines ++ rest), failed⟩ := by
  have hhas : hasAt (front ++ (hunk.oldLines ++ rest)) hunk.oldLines hunk.oldStart.toNat = true := by
    unfold hasAt
    rw [hstart, List.drop_left, List.take_left]
    exact decide_eq_true rfl
  unfold applyHunk
  simp only [findHunkStart_of_hasAt hhas]
  rw [hstart, List.take_left, ← List.drop_drop, List.drop_left, List.drop_left]

theorem foldr_applyHunk (hold : front.length = old) (hfirst : first = true → old = 0)
    (hcontext : UnifiedDiff.HaveContext n first tail blocks)
    : (patchHunks old new blocks).foldr (fun hunk applying => applyHunk applying hunk)
        ⟨front ++ source blocks tail, []⟩ = ⟨front ++ written tail blocks, []⟩ := by
  induction blocks generalizing front old new first with
  | nil => rfl
  | cons block blocks ih =>
    obtain ⟨-, hgap, hcontext⟩ := hcontext
    have hgap' : old ≠ 0 → block.gap ≠ [] := by
      intro hne
      apply hgap
      cases first with
      | true => exact absurd (hfirst rfl) hne
      | false => rfl
    have hbelow := @ih (front ++ (block.gap ++ olds block.ops)) (old + block.gap.length + (olds block.ops).length)
      (new + block.gap.length + (news block.ops).length) false (by simp [hold, Nat.add_assoc]) (by simp) hcontext
    simp only [List.append_assoc] at hbelow
    unfold patchHunks source written
    rw [List.foldr_cons, hbelow, source_cut]
    have hlength : (patchHunk (old + block.gap.length) (new + block.gap.length) block).oldStart.toNat =
        (front ++ block.gap.take (cut block)).length := by
      have hcut : cut block ≤ block.gap.length := by
        unfold cut
        split <;> omega
      rw [toNat_oldStart hgap', List.length_append, List.length_take, hold, min_eq_left hcut]
    have hat := @applyHunk_at (front ++ block.gap.take (cut block)) (block.gap.drop (cut block) ++ written tail blocks)
      (patchHunk (old + block.gap.length) (new + block.gap.length) block) [] hlength
    rw [oldLines_patchHunk, newLines_patchHunk, List.append_assoc, List.append_assoc] at hat
    exact hat

theorem le_oldStart (hcontext : UnifiedDiff.HaveContext n false tail blocks)
    : ∀ hunk ∈ patchHunks old new blocks, (old : Int) ≤ hunk.oldStart := by
  induction blocks generalizing old new with
  | nil => simp [patchHunks]
  | cons block blocks ih =>
    obtain ⟨-, hgap, hcontext⟩ := hcontext
    have hpos := List.length_pos_iff.mpr (hgap rfl)
    intro hunk hmem
    rcases List.mem_cons.mp hmem with rfl | hmem
    . unfold patchHunk headerHunk
      dsimp only
      split <;> omega
    . have hle := ih hcontext hunk hmem
      omega

theorem pairwise_patchHunks (hcontext : UnifiedDiff.HaveContext n first tail blocks)
    : (patchHunks old new blocks).Pairwise (fun hunk hunk' => hunk.oldStart < hunk'.oldStart) := by
  induction blocks generalizing old new first with
  | nil => exact .nil
  | cons block blocks ih =>
    obtain ⟨-, -, hcontext⟩ := hcontext
    refine .cons ?_ (ih hcontext)
    intro hunk hmem
    have hle := le_oldStart hcontext hunk hmem
    have hlt : (patchHunk (old + block.gap.length) (new + block.gap.length) block).oldStart <
        (old + block.gap.length + (olds block.ops).length : Nat) := by
      unfold patchHunk headerHunk
      dsimp only
      split <;> omega
    exact lt_of_lt_of_le hlt hle

theorem mergeSort_eq_reverse {hunks : List PatchHunk}
    (h : hunks.Pairwise (fun hunk hunk' => hunk.oldStart < hunk'.oldStart))
    : hunks.mergeSort (fun hunk hunk' => hunk'.oldStart ≤ hunk.oldStart) = hunks.reverse := by
  have hdistinct : (hunks.map PatchHunk.oldStart).Nodup := by
    rw [List.Nodup, List.pairwise_map]
    exact h.imp ne_of_lt
  have hperm : (hunks.mergeSort (fun hunk hunk' => hunk'.oldStart ≤ hunk.oldStart)).Perm hunks.reverse :=
    (List.mergeSort_perm _ _).trans (List.reverse_perm hunks).symm
  have hsorted := @List.pairwise_mergeSort _ (fun hunk hunk' : PatchHunk => hunk'.oldStart ≤ hunk.oldStart)
    (by
      intro a b c
      simp only [decide_eq_true_eq]
      omega)
    (by
      intro a b
      simp only [Bool.or_eq_true, decide_eq_true_eq]
      omega) hunks
  have hreverse : hunks.reverse.Pairwise (fun hunk hunk' => decide (hunk'.oldStart ≤ hunk.oldStart) = true) := by
    rw [List.pairwise_reverse]
    exact h.imp (fun hlt => decide_eq_true (le_of_lt hlt))
  apply hperm.eq_of_pairwise _ hsorted hreverse
  intro a b ha hb hab hba
  have ha' := List.mem_reverse.mp (hperm.mem_iff.mp ha)
  have hb' := List.mem_reverse.mp hb
  exact List.inj_on_of_nodup_map hdistinct ha' hb'
    (le_antisymm (of_decide_eq_true hba) (of_decide_eq_true hab))

theorem applyHunks_patchHunks (hcontext : UnifiedDiff.HaveContext n true tail blocks)
    : applyHunks (source blocks tail) (patchHunks 0 0 blocks) = ⟨written tail blocks, []⟩ := by
  have hfold := @foldr_applyHunk blocks tail [] 0 0 n true rfl (fun _ => rfl) hcontext
  unfold applyHunks
  rw [mergeSort_eq_reverse (pairwise_patchHunks hcontext), List.foldl_reverse]
  exact hfold

def AddsSame (block : Block Line) : Prop :=
  olds block.ops = [] → ∀ above, block.gap.getLast? = some above → ∀ line ∈ news block.ops, line = above

theorem flatten_cut_iff {block : Block Line} (hended : Lines.Ended '\n' (block.gap ++ (news block.ops ++ rest)))
    : (block.gap.take (cut block) ++ (news block.ops ++ block.gap.drop (cut block))).flatten =
      (block.gap ++ news block.ops).flatten ↔ AddsSame block := by
  unfold AddsSame cut
  split
  . next hnil =>
    by_cases hgap : block.gap = []
    . simp [hgap]
    . -- The last line of the gap and the new lines change places.
      obtain ⟨gap, above, hsplit⟩ : ∃ gap above, block.gap = gap ++ [above] :=
        ⟨_, _, (List.dropLast_concat_getLast hgap).symm⟩
      have hlength : (gap ++ [above]).length - 1 = gap.length := by simp
      rw [hsplit] at hended ⊢
      rw [hlength, List.take_left, List.drop_left, List.getLast?_concat]
      by_cases hnews : news block.ops = []
      . simp [hnews]
      . have habove : Lines.EndsWith '\n' above := hended.endsWith_of_before (by simp [hnews]) (by simp)
        have hcomm := hended.right.left.comm_iff habove
        simp only [List.flatten_append, List.flatten_singleton, List.append_assoc, List.append_cancel_left_eq, hcomm,
          hnil, Option.some.injEq, forall_const, forall_eq']
  . next hne => simp [hne]

theorem flatten_append_iff {u v : List Line} (hlength : u.flatten.length = v.flatten.length) (s t : List Line)
    : (u ++ s).flatten = (v ++ t).flatten ↔ u.flatten = v.flatten ∧ s.flatten = t.flatten := by
  rw [List.flatten_append, List.flatten_append]
  constructor
  . intro h
    exact List.append_inj h hlength
  . rintro ⟨hu, hs⟩
    rw [hu, hs]

theorem flatten_written_iff (hended : Lines.Ended '\n' (target blocks tail))
    : (written tail blocks).flatten = (target blocks tail).flatten ↔ ∀ block ∈ blocks, AddsSame block := by
  induction blocks with
  | nil => simp [written, target]
  | cons block blocks ih =>
    unfold target at hended
    have hrest := ih hended.right.right
    have hgap : block.gap.flatten = (block.gap.take (cut block)).flatten ++ (block.gap.drop (cut block)).flatten := by
      rw [← List.flatten_append, List.take_append_drop]
    have hlength : (block.gap.take (cut block) ++ (news block.ops ++ block.gap.drop (cut block))).flatten.length =
        (block.gap ++ news block.ops).flatten.length := by
      simp only [List.flatten_append, List.length_append, hgap]
      omega
    rw [List.forall_mem_cons, ← hrest, ← flatten_cut_iff hended, ← flatten_append_iff hlength]
    simp only [written, target, List.append_assoc]

end Hunks

section FileHeaders

variable {parsed : ParsedPatch} {parser : Parser} {line : List Char} {d : Diff}

def isFileHeader (line : List Char) : Bool :=
  "--- ".toList.isPrefixOf line

theorem headerCount_readOuter (parsed : ParsedPatch) (line : List Char)
    : (readOuter parsed line).parsed.headerCount = parsed.headerCount + if isFileHeader line then 1 else 0 := by
  unfold readOuter isFileHeader
  split
  . rfl
  . split <;> rfl

theorem headerCount_readLine (parser : Parser) (line : List Char)
    : (readLine parser line).parsed.headerCount =
      parser.parsed.headerCount + if isFileHeader line then 1 else 0 := by
  obtain ⟨reading, parsed⟩ := parser
  cases reading with
  | outer => exact headerCount_readOuter parsed line
  | header =>
    simp only [readLine]
    split
    . next hnew =>
      obtain ⟨rest, rfl⟩ := List.isPrefixOf_iff_prefix.mp hnew
      rfl
    . exact headerCount_readOuter parsed line
  | hunk hunk =>
    simp only [readLine]
    split
    . exact headerCount_readOuter (closeHunk parsed hunk) line
    . next hnot =>
      have hheader : isFileHeader line = false := by
        rw [Bool.or_eq_true, not_or, Bool.not_eq_true, Bool.not_eq_true] at hnot
        exact hnot.2
      have houter := headerCount_readOuter (closeHunk parsed hunk) line
      rw [hheader] at houter ⊢
      split
      . rfl
      . split
        . exact houter
        . split
          . rfl
          . exact houter

theorem headerCount_finish (parser : Parser) : parser.finish.headerCount = parser.parsed.headerCount := by
  unfold Parser.finish
  split <;> rfl

theorem headerCount_foldl (lines : List (List Char)) (parser : Parser)
    : (lines.foldl readLine parser).finish.headerCount = parser.parsed.headerCount + lines.countP isFileHeader := by
  induction lines generalizing parser with
  | nil => rw [List.foldl_nil, headerCount_finish, List.countP_nil, Nat.add_zero]
  | cons line lines ih =>
    rw [List.foldl_cons, ih, headerCount_readLine, List.countP_cons]
    omega

theorem mem_blockTexts {blocks : List (Block Line)} {block : Block Line} {op : Op Line} {text : List Char}
    (hblock : block ∈ blocks) (hop : op ∈ block.ops) (htext : text ∈ UnifiedDiff.opTexts op) (old new : Nat)
    : text ∈ UnifiedDiff.blockTexts old new blocks := by
  induction blocks generalizing old new with
  | nil => cases hblock
  | cons first blocks ih =>
    unfold UnifiedDiff.blockTexts
    rcases List.mem_cons.mp hblock with rfl | hmem
    . exact List.mem_cons_of_mem _ (List.mem_append_left _ (List.mem_flatMap.mpr ⟨op, hop, htext⟩))
    . exact List.mem_cons_of_mem _ (List.mem_append_right _ (ih hmem _ _))

theorem isFileHeader_minus {text : List Char} (h : "-- ".toList <+: text) : isFileHeader ('-' :: text) = true := by
  obtain ⟨rest, rfl⟩ := h
  rfl

theorem exists_isFileHeader {line : Line} (h : "-- ".toList <+: line)
    : ∃ text ∈ UnifiedDiff.opTexts (.remove line), isFileHeader text = true := by
  simp only [UnifiedDiff.opTexts, UnifiedDiff.lineTexts]
  split
  . next hlast =>
    refine ⟨_, List.mem_singleton.mpr rfl, isFileHeader_minus ?_⟩
    obtain ⟨rest, rfl⟩ := h
    have hrest : rest ≠ [] := by
      rintro rfl
      exact absurd hlast (by decide)
    rw [List.dropLast_append_of_ne_nil hrest]
    exact List.prefix_append _ _
  . exact ⟨_, List.mem_cons_self, isFileHeader_minus h⟩

theorem one_lt_headerCount {block : Block Line} (hblock : block ∈ d.blocks) (h : ¬NoFileHeader block.ops)
    : 1 < (d.texts.foldl readLine ⟨.outer, ⟨none, none, 0, []⟩⟩).finish.headerCount := by
  obtain ⟨line, hmem, hbegins⟩ : ∃ line, Op.remove line ∈ block.ops ∧ "-- ".toList <+: line := by
    unfold NoFileHeader at h
    push Not at h
    exact h
  obtain ⟨text, htext, hheader⟩ := exists_isFileHeader hbegins
  have hpos := List.countP_pos_iff.mpr ⟨text, mem_blockTexts hblock hmem htext 0 0, hheader⟩
  have hold : isFileHeader ("--- ".toList ++ d.oldFile) = true := rfl
  rw [headerCount_foldl]
  unfold UnifiedDiff.Diff.texts
  rw [List.countP_cons, if_pos hold, List.countP_cons]
  omega

end FileHeaders

section Diffs

variable {place : Place} {strip : Int} {a b : List Char} {d : Diff} {n : Nat}

def Plain (d : Diff) : Prop :=
  ∀ text ∈ d.texts, ∀ c ∈ text, isLineBoundary c = false

def Inverts (place : Place) (strip : Int) (a b patch : List Char) : Prop :=
  ∃ hunks ending, applyPatch place a patch strip = .applied b hunks ending

theorem parse_text (hplain : Plain d)
    : parseUnifiedDiff d.text = (d.texts.foldl readLine ⟨.outer, ⟨none, none, 0, []⟩⟩).finish := by
  unfold parseUnifiedDiff UnifiedDiff.Diff.text
  rw [splitlines_texts hplain]

theorem mem_written {tail : List Line} {blocks : List (Block Line)} {line : Line} (h : line ∈ written tail blocks)
    : line ∈ target blocks tail := by
  induction blocks with
  | nil => exact h
  | cons block blocks ih =>
    simp only [written, target, List.mem_append] at h ⊢
    rcases h with hgap | hnew | hgap | hrest
    . exact .inl (List.mem_of_mem_take hgap)
    . exact .inr (.inl hnew)
    . exact .inl (List.mem_of_mem_drop hgap)
    . exact .inr (.inr (ih hrest))

theorem normalize_readlines (hvalid : d.Valid n a b) (ha : '\r' ∉ a)
    : (readlines a).map (normalizeLineEndings · (some .lf)) = source d.blocks d.tail := by
  rw [readlines_eq ha, hvalid.source]
  refine (List.map_congr_left ?_).trans (List.map_id _)
  intro line hline
  apply normalizeLineEndings_lf
  intro hmem
  have hflat := List.mem_flatten.mpr ⟨line, hline, hmem⟩
  rw [Lines.flatten_pieces] at hflat
  exact ha hflat

theorem notMem_written (hvalid : d.Valid n a b) (hb : '\r' ∉ b) : '\r' ∉ (written d.tail d.blocks).flatten := by
  intro hmem
  obtain ⟨line, hline, hmem⟩ := List.mem_flatten.mp hmem
  have hflat := List.mem_flatten.mpr ⟨line, mem_written hline, hmem⟩
  rw [hvalid.target, Lines.flatten_pieces] at hflat
  exact hb hflat

theorem patchHunks_ne_nil (h : d.blocks ≠ []) : patchHunks 0 0 d.blocks ≠ [] := by
  cases hblocks : d.blocks with
  | nil => exact absurd hblocks h
  | cons block blocks => exact List.cons_ne_nil _ _

theorem applyPatch_text (hvalid : d.Valid n a b) (ha : '\r' ∉ a) (hb : '\r' ∉ b) (hplain : Plain d)
    (htarget : patchTargetsMatch place (extractPatchPath d.oldFile) (extractPatchPath d.newFile) strip = true)
    (hheaders : ∀ block ∈ d.blocks, NoFileHeader block.ops)
    : ∃ hunks ending, applyPatch place a d.text strip =
      .applied (written d.tail d.blocks).flatten hunks ending := by
  have hparsed := parse_text hplain
  rw [foldl_texts hheaders] at hparsed
  have hwritten := normalizeLineEndings_eq (notMem_written hvalid hb)
    (@detectLineEnding_ne_crlf (readlines a).flatten (by
      rw [readlines_eq ha, Lines.flatten_pieces]
      exact ha))
  unfold applyPatch
  simp only [hparsed, normalize_readlines hvalid ha, htarget, applyHunks_patchHunks hvalid.context, hwritten,
    patchHunks_ne_nil hvalid.nonempty]
  exact ⟨_, _, rfl⟩

theorem applyPatch_headers (hplain : Plain d) {block : Block Line} (hblock : block ∈ d.blocks)
    (h : ¬NoFileHeader block.ops)
    : applyPatch place a d.text strip = .invalidPatch := by
  have hcount := one_lt_headerCount hblock h
  rw [← parse_text hplain] at hcount
  unfold applyPatch
  simp [ne_of_gt hcount]

/--
A diff without other ends of lines turns the one text into the other only where no removed line looks like a
header, and where blocks that only add lines repeat the line above.
-/
theorem applyPatch_inverts_iff (hvalid : d.Valid n a b) (ha : '\r' ∉ a) (hb : '\r' ∉ b) (hplain : Plain d)
    (htarget : patchTargetsMatch place (extractPatchPath d.oldFile) (extractPatchPath d.newFile) strip = true)
    : Inverts place strip a b d.text ↔ ∀ block ∈ d.blocks, NoFileHeader block.ops ∧ AddsSame block := by
  have htext : b = (target d.blocks d.tail).flatten := by
    rw [hvalid.target, Lines.flatten_pieces]
  have hended : Lines.Ended '\n' (target d.blocks d.tail) := by
    rw [hvalid.target]
    exact Lines.ended_pieces b
  constructor
  . rintro ⟨hunks, ending, happlied⟩
    have hheaders : ∀ block ∈ d.blocks, NoFileHeader block.ops := by
      intro block hblock
      by_contra hnot
      rw [applyPatch_headers hplain hblock hnot] at happlied
      cases happlied
    obtain ⟨hunks', ending', hwritten⟩ := applyPatch_text hvalid ha hb hplain htarget hheaders
    rw [hwritten] at happlied
    injection happlied with hsame
    rw [htext] at hsame
    have hadds := (flatten_written_iff hended).mp hsame
    exact fun block hblock => ⟨hheaders block hblock, hadds block hblock⟩
  . intro h
    obtain ⟨hunks, ending, hwritten⟩ := applyPatch_text hvalid ha hb hplain htarget
      (fun block hblock => (h block hblock).1)
    rw [(flatten_written_iff hended).mpr (fun block hblock => (h block hblock).2), ← htext] at hwritten
    exact ⟨hunks, ending, hwritten⟩

theorem plain_of_all (h : (d.texts.all fun text => text.all fun c => !isLineBoundary c) = true) : Plain d := by
  intro text htext c hc
  rw [List.all_eq_true] at h
  have hc' := List.all_eq_true.mp (h text htext) c hc
  simpa using hc'

def filePlace : Place :=
  ⟨["workspace".toList], ["workspace".toList, "f".toList], fun _ => []⟩

def twoBlocks : Diff where
  oldFile := "f".toList
  newFile := "f".toList
  blocks := [
    ⟨[], [.keep "one\n".toList, .remove "two\n".toList, .add "TWO\n".toList, .keep "three\n".toList], false, false, []⟩,
    ⟨["four\n".toList, "five\n".toList], [.keep "six\n".toList, .remove "seven".toList, .add "seven\n".toList],
      true, true, " def f".toList⟩
  ]
  tail := []

theorem inverts_twoBlocks
    : Inverts filePlace 0 "one\ntwo\nthree\nfour\nfive\nsix\nseven".toList
        "one\nTWO\nthree\nfour\nfive\nsix\nseven\n".toList twoBlocks.text := by
  have hvalid : twoBlocks.Valid 1 "one\ntwo\nthree\nfour\nfive\nsix\nseven".toList
      "one\nTWO\nthree\nfour\nfive\nsix\nseven\n".toList := by
    refine ⟨List.cons_ne_nil _ _, ⟨⟨⟨.remove "two\n".toList, by decide, rfl⟩, .inl rfl, .inl rfl⟩, ?_,
      ⟨⟨.remove "seven".toList, by decide, rfl⟩, .inl rfl, .inr ?_⟩, ?_, trivial⟩, ?_, ?_, ?_, ?_, ?_⟩
    . decide
    . decide
    . decide
    . decide +kernel
    . decide +kernel
    . decide
    . decide
    . decide
  apply (applyPatch_inverts_iff hvalid (by decide) (by decide) (plain_of_all (by decide +kernel))
    (by decide +kernel)).mpr
  intro block hblock
  simp only [twoBlocks, List.mem_cons, List.not_mem_nil, or_false] at hblock
  rcases hblock with rfl | rfl
  . constructor
    . simp [NoFileHeader]
    . intro hnil
      cases hnil
  . constructor
    . simp [NoFileHeader]
    . intro hnil
      cases hnil

def wholeDiff (ops : List (Op Line)) : Diff :=
  ⟨"f".toList, "f".toList, [⟨[], ops, false, false, []⟩], []⟩

/--
The removal of a comment that begins with two hyphens.
-/
theorem removed_comment_rejected : ¬∀ (n : Nat) (a b : List Char) (d : Diff) (place : Place) (strip : Int),
    d.Valid n a b → '\r' ∉ a → '\r' ∉ b →
      patchTargetsMatch place (extractPatchPath d.oldFile) (extractPatchPath d.newFile) strip = true →
      Inverts place strip a b d.text := by
  intro h
  have hvalid : (wholeDiff [.remove "-- note\n".toList, .keep "x\n".toList]).Valid 3 "-- note\nx\n".toList
      "x\n".toList := by
    refine ⟨by simp [wholeDiff], ⟨⟨⟨_, List.mem_cons_self, rfl⟩, .inr ?_, .inr ?_⟩, by simp, trivial⟩, ?_, ?_, ?_, ?_,
      ?_⟩
    . decide
    . decide
    . decide +kernel
    . decide +kernel
    . decide
    . decide
    . decide
  obtain ⟨hunks, ending, happlied⟩ := h 3 _ _ _ filePlace 0 hvalid (by decide) (by decide) (by decide +kernel)
  have hheader : ¬NoFileHeader [.remove "-- note\n".toList, .keep "x\n".toList] := by
    intro hnot
    exact hnot "-- note\n".toList List.mem_cons_self (by decide)
  rw [applyPatch_headers (plain_of_all (by decide +kernel)) List.mem_cons_self hheader] at happlied
  cases happlied

end Diffs

end Patch
end Sandbox
end MemStack
