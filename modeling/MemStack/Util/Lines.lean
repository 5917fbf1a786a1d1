import MemStack.Util.Lists

/-!
This module contains texts as pieces that each end where the text is cut.
-/

namespace Lines

variable {α : Type}

-- The text is cut after a symbol that `cut` accepts with what follows it.
def pieces (cut : α → List α → Bool) : List α → List (List α)
  | [] => []
  | a :: s =>
    if cut a s then [a] :: pieces cut s
    else
      match pieces cut s with
      | [] => [[a]]
      | piece :: rest => (a :: piece) :: rest

variable {cut : α → List α → Bool} {a : α} {s t piece : List α} {rest : List (List α)}

theorem flatten_pieces (s : List α) : (pieces cut s).flatten = s := by
  induction s with
  | nil => rfl
  | cons a s ih =>
    unfold pieces
    split
    . rw [List.flatten_cons, ih]
      rfl
    . split
      . next hnil =>
        rw [hnil] at ih
        rw [← ih]
        rfl
      . next piece rest hcons =>
        rw [hcons, List.flatten_cons] at ih
        rw [List.flatten_cons, List.cons_append, ih]

theorem pieces_eq_nil : pieces cut s = [] ↔ s = [] := by
  constructor
  . intro h
    have hflat := @flatten_pieces _ cut s
    rw [← hflat, h]
    rfl
  . rintro rfl
    rfl

theorem pieces_cut (h : cut a s = true) : pieces cut (a :: s) = [a] :: pieces cut s := by
  rw [pieces, if_pos h]

theorem pieces_keep (h : cut a s = false) (hrest : pieces cut s = piece :: rest)
    : pieces cut (a :: s) = (a :: piece) :: rest := by
  rw [pieces, if_neg (by simp [h]), hrest]

theorem pieces_append_cons (hnot : ∀ u b v, t = u ++ b :: v → cut b (v ++ a :: s) = false) (hcut : cut a s = true)
    : pieces cut (t ++ a :: s) = (t ++ [a]) :: pieces cut s := by
  induction t with
  | nil => exact pieces_cut hcut
  | cons b t ih =>
    have hrest := ih (fun u c v heq => hnot (b :: u) c v (by rw [heq]; rfl))
    exact pieces_keep (hnot [] b t rfl) hrest

theorem not_cut_within {pre post : List (List α)} {u v : List α} (h : pieces cut s = pre ++ piece :: post)
    (hpiece : piece = u ++ a :: v) (hv : v ≠ [])
    : cut a (v ++ post.flatten) = false := by
  induction s generalizing pre piece u with
  | nil => simp [pieces] at h
  | cons b s ih =>
    have hshort : [b] ≠ u ++ a :: v := by
      intro heq
      have hlength := congrArg List.length heq
      have hpos := List.length_pos_iff.mpr hv
      simp only [List.length_cons, List.length_nil, List.length_append] at hlength
      omega
    cases hb : cut b s with
    | true =>
      rw [pieces_cut hb] at h
      cases pre with
      | nil =>
        rw [List.nil_append, List.cons.injEq] at h
        exact absurd (h.1.trans hpiece) hshort
      | cons first pre =>
        rw [List.cons_append, List.cons.injEq] at h
        exact ih h.2 hpiece
    | false =>
      cases hs : pieces cut s with
      | nil =>
        rw [pieces, if_neg (by simp [hb]), hs] at h
        cases pre with
        | nil =>
          rw [List.nil_append, List.cons.injEq] at h
          exact absurd (h.1.trans hpiece) hshort
        | cons first pre => simp at h
      | cons first rest =>
        rw [pieces_keep hb hs] at h
        cases pre with
        | nil =>
          rw [List.nil_append, List.cons.injEq] at h
          obtain ⟨rfl, rfl⟩ := h
          cases u with
          | nil =>
            rw [List.nil_append, List.cons.injEq] at hpiece
            obtain ⟨rfl, rfl⟩ := hpiece
            rw [← List.flatten_cons, ← hs, flatten_pieces]
            exact hb
          | cons c u =>
            rw [List.cons_append, List.cons.injEq] at hpiece
            have hfirst : pieces cut s = [] ++ _ := hs
            exact ih hfirst hpiece.2
        | cons second pre =>
          rw [List.cons_append, List.cons.injEq] at h
          have hlater : pieces cut s = (first :: pre) ++ piece :: post := by
            rw [hs, h.2]
            rfl
          exact ih hlater hpiece

section Ends

variable [DecidableEq α] {x : α} {l pre post : List (List α)}

-- The text is cut after each `x`.
def after (x : α) (a : α) (_ : List α) : Bool :=
  a = x

-- Each piece but the last ends with the only `x` in it.
inductive Ended (x : α) : List (List α) → Prop
  | nil : Ended x []
  | last {t : List α} (hne : t ≠ []) (ht : x ∉ t) : Ended x [t]
  | cons {t : List α} {rest : List (List α)} (ht : x ∉ t) (hrest : Ended x rest) : Ended x ((t ++ [x]) :: rest)

def EndsWith (x : α) (piece : List α) : Prop :=
  ∃ t, piece = t ++ [x] ∧ x ∉ t

omit [DecidableEq α] in
theorem Ended.keep (h : Ended x (piece :: rest)) (ha : a ≠ x) : Ended x ((a :: piece) :: rest) := by
  cases h with
  | last _ ht => exact .last (by simp) (by simp [ht, ha.symm])
  | @cons t _ ht hrest => exact .cons (t := a :: t) (by simp [ht, ha.symm]) hrest

theorem ended_pieces (s : List α) : Ended x (pieces (after x) s) := by
  induction s with
  | nil => exact .nil
  | cons a s ih =>
    by_cases ha : a = x
    . rw [pieces_cut (by simp [after, ha]), ha]
      exact .cons (t := []) (by simp) ih
    . cases hs : pieces (after x) s with
      | nil =>
        rw [pieces, if_neg (by simp [after, ha]), hs]
        exact .last (by simp) (by simp [Ne.symm ha])
      | cons piece rest =>
        rw [pieces_keep (by simp [after, ha]) hs]
        rw [hs] at ih
        exact ih.keep ha

omit [DecidableEq α] in
theorem Ended.endsWith_of_before (h : Ended x (pre ++ post)) (hpost : post ≠ []) (hp : piece ∈ pre)
    : EndsWith x piece := by
  induction pre with
  | nil => cases hp
  | cons first pre ih =>
    rw [List.cons_append] at h
    cases hrest : pre ++ post with
    | nil => exact absurd (List.append_eq_nil_iff.mp hrest).2 hpost
    | cons second rest =>
      rw [hrest] at h
      cases h with
      | @cons t _ ht hended =>
        rcases List.mem_cons.mp hp with rfl | hmem
        . exact ⟨t, rfl, ht⟩
        . rw [hrest] at ih
          exact ih hended hmem

omit [DecidableEq α] in
theorem Ended.right (h : Ended x (pre ++ post)) : Ended x post := by
  induction pre with
  | nil => exact h
  | cons piece pre ih =>
    rw [List.cons_append] at h
    generalize hrest : pre ++ post = rest at h ih
    cases h with
    | last _ _ =>
      rw [(List.append_eq_nil_iff.mp hrest).2]
      exact .nil
    | cons _ hended => exact ih hended

omit [DecidableEq α] in
theorem Ended.left (h : Ended x (pre ++ post)) : Ended x pre := by
  induction pre with
  | nil => exact .nil
  | cons piece pre ih =>
    rw [List.cons_append] at h
    generalize hrest : pre ++ post = rest at h ih
    cases h with
    | last hne ht =>
      rw [(List.append_eq_nil_iff.mp hrest).1]
      exact .last hne ht
    | cons ht hended => exact .cons ht (ih hended)

omit [DecidableEq α] in
theorem Ended.flatten_ne_nil (h : Ended x l) (hne : l ≠ []) : l.flatten ≠ [] := by
  cases h with
  | nil => exact absurd rfl hne
  | last ht _ => simpa using ht
  | cons _ _ => simp

omit [DecidableEq α] in
theorem Ended.endsWith (h : Ended x l) (hlast : l.flatten.getLast? = some x) (hp : piece ∈ l) : EndsWith x piece := by
  induction h with
  | nil => cases hp
  | last _ ht =>
    rw [List.flatten_singleton] at hlast
    exact absurd (List.mem_of_getLast? hlast) ht
  | @cons t rest ht hrest ih =>
    rcases List.mem_cons.mp hp with rfl | hmem
    . exact ⟨t, rfl, ht⟩
    . have hne := hrest.flatten_ne_nil (List.ne_nil_of_mem hmem)
      rw [List.flatten_cons, List.getLast?_append_of_ne_nil _ hne] at hlast
      exact ih hlast hmem

omit [DecidableEq α] in
theorem getLast?_flatten (hne : l ≠ []) (h : ∀ piece ∈ l, EndsWith x piece) : l.flatten.getLast? = some x := by
  obtain ⟨t, ht, -⟩ := h _ (List.getLast_mem hne)
  rw [← List.dropLast_concat_getLast hne, List.flatten_append, List.flatten_singleton, ht, ← List.append_assoc,
    List.getLast?_concat]

omit [DecidableEq α] in
theorem Ended.comm_iff (h : Ended x l) (hpiece : EndsWith x piece)
    : l.flatten ++ piece = piece ++ l.flatten ↔ ∀ p ∈ l, p = piece := by
  obtain ⟨t, rfl, ht⟩ := hpiece
  induction h with
  | nil => simp
  | @last u hne hu =>
    have hend (heq : u ++ (t ++ [x]) = (t ++ [x]) ++ u) : False := by
      have hlast := congrArg List.getLast? heq
      rw [← List.append_assoc, List.getLast?_concat, List.getLast?_append_of_ne_nil _ hne] at hlast
      exact hu (List.mem_of_getLast? hlast.symm)
    constructor
    . intro heq
      rw [List.flatten_singleton] at heq
      exact (hend heq).elim
    . intro heq
      rw [heq u List.mem_cons_self] at hu
      simp at hu
  | @cons u rest hu _ ih =>
    rw [List.flatten_cons, List.forall_mem_cons, ← ih]
    constructor
    . intro heq
      simp only [List.append_assoc, List.singleton_append] at heq
      obtain ⟨rfl, hrest⟩ := Lists.append_cons_inj hu ht heq
      refine ⟨rfl, ?_⟩
      simpa using hrest
    . rintro ⟨heq, hcomm⟩
      rw [heq, List.append_assoc, hcomm]

theorem eq_of_prefix {u v : List α} (hu : u <+: s) (hv : v <+: s) (hcount : u.count x = v.count x)
    (hle : v.length ≤ u.length) (hlast : u ≠ [] → u.getLast? = some x)
    : u = v := by
  obtain ⟨rest, rfl⟩ := List.prefix_of_prefix_length_le hv hu hle
  by_cases hrest : rest = []
  . rw [hrest, List.append_nil]
  . have hx := hlast (by simp [hrest])
    rw [List.getLast?_append_of_ne_nil _ hrest] at hx
    rw [List.count_append, Nat.add_eq_left, List.count_eq_zero] at hcount
    exact absurd (List.mem_of_getLast? hx) hcount

theorem eq_of_suffix {u v : List α} (hu : u <:+ s ++ v) (hs : s.getLast? = some x) (hcount : u.count x = v.count x)
    (hle : v.length ≤ u.length)
    : u = v := by
  obtain ⟨rest, rfl⟩ := List.suffix_of_suffix_length_le (List.suffix_append s v) hu hle
  by_cases hrest : rest = []
  . rw [hrest, List.nil_append]
  . obtain ⟨before, hbefore⟩ := hu
    rw [← List.append_assoc, List.append_cancel_right_eq] at hbefore
    rw [← hbefore, List.getLast?_append_of_ne_nil _ hrest] at hs
    rw [List.count_append, Nat.add_eq_right, List.count_eq_zero] at hcount
    exact absurd (List.mem_of_getLast? hs) hcount

end Ends

end Lines

namespace Pieces

variable {α : Type} [DecidableEq α] {sep : α} {base path rest : List α} {parts : List (List α)}

def joined (sep : α) (parts : List (List α)) : List α :=
  parts.flatMap (sep :: ·)

def after (sep : α) (base path : List α) : Option (List α) :=
  if (base ++ [sep]).isPrefixOf path then some (path.drop (base.length + 1)) else none

theorem after_eq_some : after sep base path = some rest ↔ path = base ++ sep :: rest := by
  unfold after
  constructor
  . intro h
    split at h
    . next hprefix =>
      obtain ⟨tail, rfl⟩ := List.isPrefixOf_iff_prefix.mp hprefix
      cases h
      simp
    . cases h
  . rintro rfl
    rw [if_pos (List.isPrefixOf_iff_prefix.mpr ⟨rest, by simp⟩), List.drop_append]
    simp

omit [DecidableEq α] in
theorem cons_intercalate (h : parts ≠ []) : sep :: [sep].intercalate parts = joined sep parts := by
  induction parts with
  | nil => exact absurd rfl h
  | cons part parts ih =>
    cases parts with
    | nil => simp [joined]
    | cons next parts =>
      rw [List.intercalate_cons_cons, joined, List.flatMap_cons, ← joined, ← ih (by simp)]
      simp

theorem notMem_of_mem_splitOn : ∀ part ∈ rest.splitOn sep, sep ∉ part := by
  induction rest with
  | nil => simp
  | cons a rest ih =>
    rw [List.splitOn_cons_eq_if_modifyHead]
    split
    . simpa using ih
    . next hne =>
      obtain ⟨part, parts, hparts⟩ := List.exists_cons_of_ne_nil (List.splitOn_ne_nil sep rest)
      rw [hparts, List.forall_mem_cons] at ih
      rw [hparts, List.modifyHead_cons, List.forall_mem_cons]
      refine ⟨?_, ih.2⟩
      rw [List.mem_cons, not_or]
      exact ⟨fun heq => hne (beq_iff_eq.mpr heq.symm), ih.1⟩

theorem splitOn_eq_iff
    : rest.splitOn sep = parts
        ↔
      parts ≠ [] ∧ (∀ part ∈ parts, sep ∉ part) ∧ sep :: rest = joined sep parts := by
  constructor
  . rintro rfl
    refine ⟨List.splitOn_ne_nil sep rest, notMem_of_mem_splitOn, ?_⟩
    rw [← cons_intercalate (List.splitOn_ne_nil sep rest), List.intercalate_splitOn]
  . rintro ⟨hne, hparts, heq⟩
    rw [← cons_intercalate hne, List.cons.injEq] at heq
    rw [heq.2, List.splitOn_intercalate sep hparts hne]

end Pieces

namespace UnifiedDiff

section Blocks

variable {α : Type}

inductive Op (α : Type) where
  | keep (line : α)
  | remove (line : α)
  | add (line : α)
  deriving DecidableEq, Repr

def olds (ops : List (Op α)) : List α :=
  ops.filterMap fun
    | .keep line => some line
    | .remove line => some line
    | .add _ => none

def news (ops : List (Op α)) : List α :=
  ops.filterMap fun
    | .keep line => some line
    | .remove _ => none
    | .add line => some line

-- The lines between the block and the one before it, and the lines of the block. A count of one may be left
-- out, and the heading ends the first line of the block.
structure Block (α : Type) where
  gap : List α
  ops : List (Op α)
  shortOld : Bool
  shortNew : Bool
  heading : List Char

def source (blocks : List (Block α)) (tail : List α) : List α :=
  match blocks with
  | [] => tail
  | block :: blocks => block.gap ++ (olds block.ops ++ source blocks tail)

def target (blocks : List (Block α)) (tail : List α) : List α :=
  match blocks with
  | [] => tail
  | block :: blocks => block.gap ++ (news block.ops ++ target blocks tail)

def Op.isKeep : Op α → Bool
  | .keep _ => true
  | _ => false

def lead (ops : List (Op α)) : Nat :=
  (ops.takeWhile Op.isKeep).length

structure HasContext (n : Nat) (first last : Bool) (block : Block α) (tail : List α) : Prop where
  changes : ∃ op ∈ block.ops, op.isKeep = false
  before : lead block.ops = n ∨ (lead block.ops < n ∧ first = true ∧ block.gap = [])
  behind : lead block.ops.reverse = n ∨ (lead block.ops.reverse < n ∧ last = true ∧ tail = [])

def HaveContext (n : Nat) (first : Bool) (tail : List α) : List (Block α) → Prop
  | [] => True
  | block :: blocks =>
    HasContext n first blocks.isEmpty block tail ∧ (first = false → block.gap ≠ []) ∧ HaveContext n false tail blocks

end Blocks

section Texts

abbrev Line := List Char

def rangeText (offset count : Nat) (short : Bool) : List Char :=
  let start := Nat.toDigits 10 (if count = 0 then offset else offset + 1)
  if count = 1 && short then start else start ++ ',' :: Nat.toDigits 10 count

def noNewline : List Char :=
  "\\ No newline at end of file".toList

def lineTexts (symbol : Char) (line : Line) : List (List Char) :=
  if line.getLast? = some '\n' then [symbol :: line.dropLast] else [symbol :: line, noNewline]

def opTexts : Op Line → List (List Char)
  | .keep line => lineTexts ' ' line
  | .remove line => lineTexts '-' line
  | .add line => lineTexts '+' line

def headerText (old new : Nat) (block : Block Line) : List Char :=
  "@@ -".toList ++ (rangeText old (olds block.ops).length block.shortOld ++ (" +".toList ++
    (rangeText new (news block.ops).length block.shortNew ++ (" @@".toList ++ block.heading))))

def blockTexts (old new : Nat) : List (Block Line) → List (List Char)
  | [] => []
  | block :: blocks =>
    let old := old + block.gap.length
    let new := new + block.gap.length
    headerText old new block :: (block.ops.flatMap opTexts ++
      blockTexts (old + (olds block.ops).length) (new + (news block.ops).length) blocks)

structure Diff where
  oldFile : List Char
  newFile : List Char
  blocks : List (Block Line)
  tail : List Line

variable (d : Diff)

def Diff.texts : List (List Char) :=
  ("--- ".toList ++ d.oldFile) :: ("+++ ".toList ++ d.newFile) :: blockTexts 0 0 d.blocks

def Diff.text : List Char :=
  d.texts.flatMap (· ++ ['\n'])

structure Diff.Valid (n : Nat) (a b : List Char) : Prop where
  nonempty : d.blocks ≠ []
  context : HaveContext n true d.tail d.blocks
  source : source d.blocks d.tail = Lines.pieces (Lines.after '\n') a
  target : target d.blocks d.tail = Lines.pieces (Lines.after '\n') b
  oldFile : '\n' ∉ d.oldFile
  newFile : '\n' ∉ d.newFile
  headings : ∀ block ∈ d.blocks, '\n' ∉ block.heading

end Texts

end UnifiedDiff
