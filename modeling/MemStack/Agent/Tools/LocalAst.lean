import MemStack.Agent.Tools.LocalEdits

/-!
This module contains the local tool that replaces the definition of a symbol in a file
(`adapters-local-tools/src/lib.rs`), and what it leaves as it is.
-/

namespace MemStack
namespace Agent
namespace LocalTools

section Symbols

-- `char::is_alphanumeric`.
variable (isAlphanumeric : Char → Bool)

def symbolCandidates : List (String × String) :=
  [("pub async fn ", "function"), ("pub fn ", "function"), ("async fn ", "function"), ("fn ", "function"),
    ("def ", "function"), ("class ", "class"), ("pub struct ", "struct"), ("struct ", "struct"),
    ("pub enum ", "enum"), ("enum ", "enum"), ("function ", "function"), ("export function ", "function"),
    ("const ", "constant"), ("let ", "variable")]

def isNameChar (c : Char) : Bool :=
  isAlphanumeric c || c = '_' || c = '$'

def trimStart (line : String) : List Char :=
  line.toList.dropWhile Text.isWhitespace

def parseSymbolLine (line : String) : Option (String × String) :=
  symbolCandidates.findSome? fun (start, kind) =>
    if start.toList.isPrefixOf (trimStart line) then
      let name := ((trimStart line).drop start.length).takeWhile (isNameChar isAlphanumeric)
      if name ≠ [] then some (kind, String.ofList name) else none
    else none

def indent (line : String) : Nat :=
  (line.toList.takeWhile Text.isWhitespace).length

def defines (symbol line : String) : Bool :=
  ((parseSymbolLine isAlphanumeric line).map (fun parsed => decide (parsed.2 = symbol))).getD false

def endsRange (base : Nat) (line : String) : Bool :=
  Text.trim line ≠ "" && decide (indent line ≤ base) && (parseSymbolLine isAlphanumeric line).isSome

def symbolRange (content symbol : String) : Option (Nat × Nat) := do
  let lines := lines content
  let start := (← lines.findIdx? (defines isAlphanumeric symbol)) + 1
  let base := indent ((lines[start - 1]?).getD "")
  let last := ((lines.drop start).findIdx? (endsRange isAlphanumeric base)).elim lines.length (start + ·)
  return (start, last)

end Symbols

section Tools

variable {F : Type} (isAlphanumeric : Char → Bool) (ws : Workspace)

structure AstResult where
  path : String
  symbol : String
  startLine : Nat
  endLine : Nat
  deriving DecidableEq, Repr

def spliced (content replacement : String) (range : Nat × Nat) : String :=
  String.intercalate "\n" ((lines content).take (range.1 - 1) ++
    (lines replacement ++ (lines content).drop range.2)) ++ "\n"

def editByAstTool (input : Json F) : Except String (AstResult × Workspace) := do
  let path ← inputPath input
  let symbol ← stringAny input ["symbol", "function", "name"]
  let replacement ← stringAny input ["replacement", "content", "new_text"]
  let absolute ← ws.resolveExistingPath path
  let content ← ws.read absolute
  let range ← (symbolRange isAlphanumeric content symbol).elim (.error ("symbol not found: " ++ symbol)) .ok
  let ws ← ws.write absolute (spliced content replacement range)
  return ({ path, symbol, startLine := range.1, endLine := range.2 }, ws)

end Tools

section Ranges

variable {isAlphanumeric : Char → Bool} {content symbol line head : String} {startLine endLine base : Nat}

def Ends (isAlphanumeric : Char → Bool) (base : Nat) (line : String) : Prop :=
  indent line ≤ base ∧ (parseSymbolLine isAlphanumeric line).isSome = true

structure IsRange (isAlphanumeric : Char → Bool) (content symbol : String) (startLine endLine : Nat) (head : String)
    : Prop where
  pos : 0 < startLine
  le : startLine ≤ endLine
  le_length : endLine ≤ (lines content).length
  head_line : (lines content)[startLine - 1]? = some head
  head_defines : defines isAlphanumeric symbol head = true
  first : ∀ line ∈ (lines content).take (startLine - 1), defines isAlphanumeric symbol line = false
  inside : ∀ line ∈ ((lines content).take endLine).drop startLine, ¬Ends isAlphanumeric (indent head) line
  ends : ∀ line, (lines content)[endLine]? = some line → Ends isAlphanumeric (indent head) line

theorem trimStart_of_blank (h : Text.trim line = "") : trimStart line = [] := by
  have hall : ∀ c ∈ (trimStart line).reverse, Text.isWhitespace c = true := by
    rw [← List.dropWhile_eq_nil_iff, ← List.reverse_eq_nil_iff]
    exact String.ofList_injective h
  by_contra hne
  obtain ⟨c, hc⟩ := exists_head? hne
  have hnot := List.head?_dropWhile_not Text.isWhitespace line.toList
  unfold trimStart at hc
  rw [hc] at hnot
  simp only [hall c (List.mem_reverse.mpr (List.mem_of_head? hc))] at hnot
  cases hnot

theorem trim_ne_of_parse (h : (parseSymbolLine isAlphanumeric line).isSome = true) : Text.trim line ≠ "" := by
  intro hblank
  obtain ⟨parsed, hparsed⟩ := Option.isSome_iff_exists.mp h
  obtain ⟨candidate, hcandidate, hfound⟩ := List.exists_of_findSome?_eq_some hparsed
  have hbegins : candidate.1.toList.isPrefixOf (trimStart line) = true := by
    by_contra hnot
    simp [hnot] at hfound
  rw [trimStart_of_blank hblank] at hbegins
  have hall : ∀ c ∈ symbolCandidates, c.1.toList.isPrefixOf [] = false := by decide +kernel
  rw [hall candidate hcandidate] at hbegins
  cases hbegins

theorem endsRange_iff : endsRange isAlphanumeric base line = true ↔ Ends isAlphanumeric base line := by
  unfold endsRange Ends
  simp only [Bool.and_eq_true, decide_eq_true_eq, ne_eq]
  constructor
  . rintro ⟨⟨-, hindent⟩, hparse⟩
    exact ⟨hindent, hparse⟩
  . rintro ⟨hindent, hparse⟩
    exact ⟨⟨by simpa using trim_ne_of_parse hparse, hindent⟩, hparse⟩

theorem exists_of_findIdx? {p : String → Bool} {l : List String} {i : Nat} (h : l.findIdx? p = some i)
    : ∃ line, l[i]? = some line ∧ p line = true ∧ ∀ line ∈ l.take i, p line = false := by
  obtain ⟨hi, hline, hbefore⟩ := List.findIdx?_eq_some_iff_getElem.mp h
  refine ⟨l[i], List.getElem?_eq_getElem hi, hline, ?_⟩
  intro line hmem
  obtain ⟨j, hj, rfl⟩ := List.mem_take_iff_getElem.mp hmem
  simpa using hbefore j (by omega)

theorem isRange_of_symbolRange (h : symbolRange isAlphanumeric content symbol = some (startLine, endLine))
    : ∃ head, IsRange isAlphanumeric content symbol startLine endLine head := by
  unfold symbolRange at h
  simp only [Option.bind_eq_bind, Option.bind_eq_some_iff, pure, Option.some.injEq, Prod.mk.injEq] at h
  obtain ⟨i, hi, rfl, hlast⟩ := h
  obtain ⟨head, hhead, hdefines, hfirst⟩ := exists_of_findIdx? hi
  obtain ⟨hlt, -⟩ := List.getElem?_eq_some_iff.mp hhead
  rw [Nat.add_sub_cancel, hhead, Option.getD_some] at hlast
  cases hend : ((lines content).drop (i + 1)).findIdx? (endsRange isAlphanumeric (indent head)) with
  | none =>
    rw [hend] at hlast
    replace hlast : (lines content).length = endLine := hlast
    subst hlast
    refine ⟨head, Nat.succ_pos i, hlt, le_rfl, hhead, hdefines, hfirst, ?_, ?_⟩
    . intro line hmem hends
      rw [List.take_length] at hmem
      have hnone := List.findIdx?_eq_none_iff.mp hend line hmem
      rw [endsRange_iff.mpr hends] at hnone
      cases hnone
    . intro line hline
      rw [List.getElem?_eq_none le_rfl] at hline
      cases hline
  | some k =>
    rw [hend] at hlast
    replace hlast : i + 1 + k = endLine := hlast
    subst hlast
    obtain ⟨next, hnext, hends, hbetween⟩ := exists_of_findIdx? hend
    rw [List.getElem?_drop] at hnext
    obtain ⟨hlength, -⟩ := List.getElem?_eq_some_iff.mp hnext
    refine ⟨head, Nat.succ_pos i, Nat.le_add_right _ _, le_of_lt hlength, hhead, hdefines, hfirst, ?_, ?_⟩
    . intro line hmem hends
      rw [List.drop_take, Nat.add_sub_cancel_left] at hmem
      have hnot := hbetween line hmem
      rw [endsRange_iff.mpr hends] at hnot
      cases hnot
    . intro line hline
      rw [hnext, Option.some.injEq] at hline
      rw [← hline]
      exact endsRange_iff.mp hends

end Ranges

section Frames

open Lines (pieces EndsWith)

variable {content changed replacement : String} {startLine endLine : Nat} {piece : List Char}
variable {l : List (List Char)}

def before (content : String) (startLine : Nat) : List (List Char) :=
  (pieces isLineFeed content.toList).take (startLine - 1)

def behind (content : String) (endLine : Nat) : List (List Char) :=
  (pieces isLineFeed content.toList).drop endLine

structure Frames (content changed : String) (startLine endLine : Nat) : Prop where
  outside : ∃ middle, changed.toList =
    (before content startLine).flatten ++ (middle ++ (behind content endLine).flatten)
  finalLineFeed : changed.toList.getLast? = some '\n' ↔ content.toList.getLast? = some '\n'

structure LineFeedsOnly (content : String) (startLine endLine : Nat) : Prop where
  final : content.toList.getLast? = some '\n'
  outside : ∀ line ∈ before content startLine ++ behind content endLine, ¬['\r', '\n'] <:+ line

def normalized (piece : List Char) : List Char :=
  lineOf piece ++ ['\n']

def rewritten (l : List (List Char)) : List Char :=
  (l.map normalized).flatten

theorem toList_joined {l : List String} (hne : l ≠ [])
    : (String.intercalate "\n" l ++ "\n").toList = (l.map (fun line => line.toList ++ ['\n'])).flatten := by
  induction l with
  | nil => exact absurd rfl hne
  | cons line l ih =>
    by_cases hl : l = []
    . rw [hl]
      simp
    . rw [String.intercalate_cons_of_ne_nil hl, String.append_assoc, String.append_assoc, String.toList_append,
        String.toList_append, ih hl]
      simp

theorem rewritten_append (l r : List (List Char)) : rewritten (l ++ r) = rewritten l ++ rewritten r := by
  unfold rewritten
  rw [List.map_append, List.flatten_append]

theorem toList_spliced (hne : lines replacement ≠ [])
    : (spliced content replacement (startLine, endLine)).toList =
      rewritten (before content startLine) ++
        (rewritten (pieces isLineFeed replacement.toList) ++ rewritten (behind content endLine)) := by
  unfold spliced
  rw [toList_joined (by simp [hne]), ← rewritten_append, ← rewritten_append]
  unfold rewritten before behind lines normalized
  simp only [List.map_append, List.map_take, List.map_drop, List.map_map, Function.comp_def, String.toList_ofList]

theorem normalized_cases (h : EndsWith '\n' piece)
    : (∃ t, '\n' ∉ t ∧ piece = t ++ ['\r', '\n'] ∧ normalized piece = t ++ ['\n']) ∨
      (¬['\r', '\n'] <:+ piece ∧ normalized piece = piece) := by
  obtain ⟨t, rfl, ht⟩ := h
  by_cases hreturn : t.getLast? = some '\r'
  . left
    refine ⟨t.dropLast, fun hmem => ht (List.mem_of_mem_dropLast hmem), ?_, ?_⟩
    . have hsplit := List.dropLast_append_getLast? '\r' hreturn
      rw [← hsplit]
      simp
    . unfold normalized lineOf
      rw [List.getLast?_concat, if_pos rfl, List.dropLast_concat]
      simp only [if_pos hreturn]
  . right
    constructor
    . rintro ⟨u, hu⟩
      rw [show ['\r', '\n'] = ['\r'] ++ ['\n'] from rfl, ← List.append_assoc, List.append_cancel_right_eq] at hu
      rw [← hu, List.getLast?_concat] at hreturn
      exact hreturn rfl
    . unfold normalized lineOf
      rw [List.getLast?_concat, if_pos rfl, List.dropLast_concat]
      simp only [if_neg hreturn]

theorem rewritten_cons (piece : List Char) (l : List (List Char))
    : rewritten (piece :: l) = normalized piece ++ rewritten l :=
  rfl

theorem normalized_endsWith (h : EndsWith '\n' piece)
    : (normalized piece).count '\n' = piece.count '\n' ∧ (normalized piece).length ≤ piece.length := by
  rcases normalized_cases h with ⟨t, ht, rfl, hsame⟩ | ⟨-, hsame⟩
  . rw [hsame]
    simp [List.count_eq_zero_of_not_mem ht]
  . rw [hsame]
    exact ⟨rfl, le_rfl⟩

theorem rewritten_counts (h : ∀ piece ∈ l, EndsWith '\n' piece)
    : (rewritten l).count '\n' = l.flatten.count '\n' ∧ (rewritten l).length ≤ l.flatten.length := by
  induction l with
  | nil => exact ⟨rfl, le_rfl⟩
  | cons piece l ih =>
    obtain ⟨hcount, hlength⟩ := ih (fun p hp => h p (List.mem_cons_of_mem _ hp))
    obtain ⟨hcount', hlength'⟩ := normalized_endsWith (h piece List.mem_cons_self)
    rw [rewritten_cons, List.flatten_cons, List.count_append, List.count_append, List.length_append,
      List.length_append, hcount, hcount']
    exact ⟨rfl, by omega⟩

theorem rewritten_eq_iff (h : ∀ piece ∈ l, EndsWith '\n' piece)
    : rewritten l = l.flatten ↔ ∀ piece ∈ l, ¬['\r', '\n'] <:+ piece := by
  induction l with
  | nil => simp [rewritten]
  | cons piece l ih =>
    have hl := fun p hp => h p (List.mem_cons_of_mem piece hp)
    have hlength := (rewritten_counts hl).2
    rw [rewritten_cons, List.flatten_cons, List.forall_mem_cons, ← ih hl]
    rcases normalized_cases (h piece List.mem_cons_self) with ⟨t, -, rfl, hsame⟩ | ⟨hnot, hsame⟩
    . -- The text becomes shorter.
      have hends : ['\r', '\n'] <:+ t ++ ['\r', '\n'] := List.suffix_append _ _
      constructor
      . intro heq
        have hsum := congrArg List.length heq
        rw [hsame] at hsum
        simp only [List.length_append, List.length_cons, List.length_nil] at hsum
        omega
      . rintro ⟨hnot, -⟩
        exact absurd hends hnot
    . rw [hsame, List.append_cancel_left_eq]
      simp [hnot]

theorem getLast?_rewritten (hne : l ≠ []) : (rewritten l).getLast? = some '\n' := by
  unfold rewritten
  rw [← List.dropLast_concat_getLast hne, List.map_append, List.flatten_append]
  unfold normalized
  simp

theorem frames_iff (hstart : 0 < startLine) (hle : startLine ≤ endLine) (hlength : endLine ≤ (lines content).length)
    (hne : lines replacement ≠ [])
    : Frames content (spliced content replacement (startLine, endLine)) startLine endLine ↔
      LineFeedsOnly content startLine endLine := by
  have hended := Lines.ended_pieces (x := '\n') content.toList
  have hpieces : pieces isLineFeed replacement.toList ≠ [] := by
    intro hnil
    exact hne (by unfold lines; rw [hnil]; rfl)
  have hrange : (pieces isLineFeed content.toList).drop (startLine - 1) ≠ [] := by
    unfold lines at hlength
    rw [List.length_map] at hlength
    rw [ne_eq, List.drop_eq_nil_iff]
    omega
  have hbefore : ∀ piece ∈ before content startLine, EndsWith '\n' piece := by
    intro piece hmem
    rw [← List.take_append_drop (startLine - 1) (pieces (Lines.after '\n') content.toList)] at hended
    exact hended.endsWith_of_before hrange hmem
  have hbehind (hfinal : content.toList.getLast? = some '\n')
      : ∀ piece ∈ behind content endLine, EndsWith '\n' piece := by
    intro piece hmem
    rw [← @Lines.flatten_pieces _ isLineFeed content.toList] at hfinal
    exact hended.endsWith hfinal (List.mem_of_mem_drop hmem)
  have hchanged := @toList_spliced content _ startLine endLine hne
  have hlast : (spliced content replacement (startLine, endLine)).toList.getLast? = some '\n' := by
    rw [hchanged, ← rewritten_append, ← rewritten_append]
    exact getLast?_rewritten (by simp [hpieces])
  constructor
  . rintro ⟨⟨middle, hmiddle⟩, hfinal⟩
    have hends := hfinal.mp hlast
    refine ⟨hends, ?_⟩
    rw [List.forall_mem_append, ← rewritten_eq_iff hbefore, ← rewritten_eq_iff (hbehind hends)]
    constructor
    . obtain ⟨hcount, hshorter⟩ := rewritten_counts hbefore
      apply (Lines.eq_of_prefix (x := '\n') _ _ hcount.symm hshorter _).symm
      . exact (spliced content replacement (startLine, endLine)).toList
      . rw [hmiddle]
        exact List.prefix_append _ _
      . rw [hchanged]
        exact List.prefix_append _ _
      . intro hflat
        exact Lines.getLast?_flatten (by rintro hnil; exact hflat (by rw [hnil]; rfl)) hbefore
    . obtain ⟨hcount, hshorter⟩ := rewritten_counts (hbehind hends)
      apply (Lines.eq_of_suffix (x := '\n') _ _ hcount.symm hshorter).symm
      . exact rewritten (before content startLine) ++ rewritten (pieces isLineFeed replacement.toList)
      . rw [List.append_assoc, ← hchanged, hmiddle, ← List.append_assoc]
        exact List.suffix_append _ _
      . rw [← rewritten_append]
        exact getLast?_rewritten (by simp [hpieces])
  . rintro ⟨hends, houtside⟩
    rw [List.forall_mem_append, ← rewritten_eq_iff hbefore, ← rewritten_eq_iff (hbehind hends)] at houtside
    refine ⟨⟨rewritten (pieces isLineFeed replacement.toList), ?_⟩, iff_of_true hlast hends⟩
    rw [hchanged, houtside.1, houtside.2]

end Frames

section Edits

variable {F : Type} {isAlphanumeric : Char → Bool} {ws ws' : Workspace} {input : Json F} {result : AstResult}

theorem lines_ne_nil {s : String} (h : s ≠ "") : lines s ≠ [] := by
  intro hnil
  unfold lines at hnil
  rw [List.map_eq_nil_iff, Lines.pieces_eq_nil] at hnil
  exact toList_ne_nil h hnil

theorem ne_empty_of_stringAny {keys : List String} {s : String} (h : stringAny input keys = .ok s) : s ≠ "" := by
  unfold stringAny at h
  cases hfound : stringOpt input keys with
  | none =>
    rw [hfound] at h
    cases h
  | some found =>
    rw [hfound] at h
    cases h
    obtain ⟨key, -, hkey⟩ := List.exists_of_findSome?_eq_some hfound
    exact of_decide_eq_true (Option.filter_eq_some_iff.mp hkey).2

structure AstEdit (isAlphanumeric : Char → Bool) (ws ws' : Workspace) (result : AstResult) (path : List String)
    (content changed : String) : Prop where
  resolves : ws.resolveExistingPath result.path = .ok path
  reads : ws.read path = .ok content
  writes : ws' = ws.set path (.file changed)
  range : ∃ head, IsRange isAlphanumeric content result.symbol result.startLine result.endLine head

theorem editByAstTool_eq_ok (h : editByAstTool isAlphanumeric ws input = .ok (result, ws'))
    : ∃ path content replacement, lines replacement ≠ [] ∧
      AstEdit isAlphanumeric ws ws' result path content
        (spliced content replacement (result.startLine, result.endLine)) := by
  unfold editByAstTool at h
  simp only [Checked.bind_eq_ok] at h
  obtain ⟨path, -, symbol, -, replacement, hreplacement, absolute, hresolve, content, hread, range, hrange, w, hwrite,
    hresult⟩ := h
  cases hresult
  refine ⟨absolute, content, replacement, lines_ne_nil (ne_empty_of_stringAny hreplacement), hresolve, hread, ?_, ?_⟩
  . unfold Workspace.write at hwrite
    split at hwrite
    . cases hwrite
    . cases hwrite
      rfl
  . cases hfound : symbolRange isAlphanumeric content symbol with
    | none =>
      rw [hfound] at hrange
      cases hrange
    | some found =>
      rw [hfound] at hrange
      cases hrange
      exact isRange_of_symbolRange hfound

def EditsRangeOnly (isAlphanumeric : Char → Bool) (ws ws' : Workspace) (result : AstResult) : Prop :=
  ∃ path content changed, AstEdit isAlphanumeric ws ws' result path content changed ∧
    Frames content changed result.startLine result.endLine

/--
An edit leaves what is outside the range where the file has line feeds only there, and one at its end.
-/
theorem editByAst_framed_iff (h : editByAstTool isAlphanumeric ws input = .ok (result, ws'))
    : ∃ path content changed, AstEdit isAlphanumeric ws ws' result path content changed ∧
      (Frames content changed result.startLine result.endLine ↔
        LineFeedsOnly content result.startLine result.endLine) := by
  obtain ⟨path, content, replacement, hne, hedit⟩ := editByAstTool_eq_ok h
  obtain ⟨head, hrange⟩ := hedit.range
  exact ⟨path, content, _, hedit, frames_iff hrange.pos hrange.le hrange.le_length hne⟩

def astInput (F : Type) (raw symbol replacement : String) : Json F :=
  .dict [("path", .str raw), ("symbol", .str symbol), ("replacement", .str replacement)]

theorem editByAstTool_of_readable {raw symbol replacement content : String} {path : List String} {range : Nat × Nat}
    (h : Readable ws raw path content) (hsymbol : Text.trim symbol ≠ "") (hreplacement : Text.trim replacement ≠ "")
    (hrange : symbolRange isAlphanumeric content (Text.trim symbol) = some range)
    : editByAstTool isAlphanumeric ws (astInput F raw symbol replacement) =
      .ok (⟨Text.trim raw, Text.trim symbol, range.1, range.2⟩,
        ws.set path (.file (spliced content (Text.trim replacement) range))) := by
  have hpath : inputPath (astInput F raw symbol replacement) = .ok (Text.trim raw) := stringAny_of_field rfl h.named
  have hsymbolText : stringAny (astInput F raw symbol replacement) ["symbol", "function", "name"] =
      .ok (Text.trim symbol) := stringAny_of_field rfl hsymbol
  have hreplacementText : stringAny (astInput F raw symbol replacement) ["replacement", "content", "new_text"] =
      .ok (Text.trim replacement) := stringAny_of_field rfl hreplacement
  unfold editByAstTool
  simp only [Checked.bind_eq_ok]
  refine ⟨_, hpath, _, hsymbolText, _, hreplacementText, _, h.resolves, _, h.reads, range, ?_, _, h.write _, rfl⟩
  rw [hrange]
  rfl

theorem function_replaced : ∃ path content changed,
    AstEdit Char.isAlphanum (oneFile "fn a() {}\nfn b() {}\n")
      ((oneFile "fn a() {}\nfn b() {}\n").set ["f"] (.file "fn c() {}\nfn b() {}\n")) ⟨"f", "a", 1, 1⟩
      path content changed ∧
    (Frames content changed 1 1 ↔ LineFeedsOnly content 1 1) := by
  have hchanged : spliced "fn a() {}\nfn b() {}\n" (Text.trim "fn c() {}") (1, 1) = "fn c() {}\nfn b() {}\n" := by
    decide +kernel
  have htrim : Text.trim "f" = "f" ∧ Text.trim "a" = "a" := by decide +kernel
  have hrun := @editByAstTool_of_readable Unit Char.isAlphanum _ _ "a" "fn c() {}" _ _ (1, 1)
    (readable_oneFile "fn a() {}\nfn b() {}\n") (by decide +kernel) (by decide +kernel) (by decide +kernel)
  rw [hchanged, htrim.1, htrim.2] at hrun
  exact editByAst_framed_iff hrun

/--
The line before the function ends with a line feed only afterwards.
-/
theorem carriage_return_lost : ¬∀ ws (input : Json Unit) result ws',
    editByAstTool Char.isAlphanum ws input = .ok (result, ws') →
      EditsRangeOnly Char.isAlphanum ws ws' result := by
  intro h
  have hrun := @editByAstTool_of_readable Unit Char.isAlphanum _ _ "a" "fn c() {}" _ _ (2, 2)
    (readable_oneFile "use x;\r\nfn a() {}\n") (by decide +kernel) (by decide +kernel) (by decide +kernel)
  obtain ⟨path, content, changed, hedit, hframes⟩ := h _ _ _ _ hrun
  have hfile := readable_oneFile "use x;\r\nfn a() {}\n"
  cases hfile.resolves.symm.trans hedit.resolves
  cases hfile.reads.symm.trans hedit.reads
  have hchanged := congrArg (fun ws : Workspace => ws.entries ["f"]) hedit.writes
  simp only [Workspace.set, Function.update_self, Option.some.injEq, Entry.file.injEq] at hchanged
  rw [← hchanged, frames_iff (by decide) (by decide) (by decide +kernel) (by decide +kernel)] at hframes
  exact hframes.outside "use x;\r\n".toList (by decide +kernel) (by decide +kernel)

end Edits

end LocalTools
end Agent
end MemStack
