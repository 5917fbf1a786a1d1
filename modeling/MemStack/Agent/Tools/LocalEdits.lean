import MemStack.Agent.Tools.LocalFiles
import MemStack.Util.Checked

/-!
This module contains the texts that the local tools write, read and edit verbatim.
-/

namespace MemStack
namespace Agent
namespace LocalTools

section Margins

theorem exists_dropWhile (p : Char → Bool) (l : List Char)
    : ∃ a, l = a ++ l.dropWhile p ∧ ∀ c ∈ a, p c = true := by
  refine ⟨l.takeWhile p, List.takeWhile_append_dropWhile.symm, ?_⟩
  intro c hc
  exact List.mem_takeWhile_imp hc

theorem exists_margins (s : String)
    : ∃ a b, s.toList = a ++ ((Text.trim s).toList ++ b) ∧ (∀ c ∈ a, Text.isWhitespace c = true) ∧
      ∀ c ∈ b, Text.isWhitespace c = true := by
  obtain ⟨a, ha, hspaces⟩ := exists_dropWhile Text.isWhitespace s.toList
  obtain ⟨b, hb, hspaces'⟩ := exists_dropWhile Text.isWhitespace (s.toList.dropWhile Text.isWhitespace).reverse
  refine ⟨a, b.reverse, ?_, hspaces, ?_⟩
  . unfold Text.trim
    rw [String.toList_ofList, ← List.reverse_append, ← hb, List.reverse_reverse, ← ha]
  . intro c hc
    exact hspaces' c (List.mem_reverse.mp hc)

theorem head?_trim {s : String} {c : Char} (h : (Text.trim s).toList.head? = some c)
    : Text.isWhitespace c = false := by
  unfold Text.trim at h
  rw [String.toList_ofList, List.head?_reverse] at h
  -- What is dropped at the end leaves the first character.
  obtain ⟨b, hb, -⟩ := exists_dropWhile Text.isWhitespace (s.toList.dropWhile Text.isWhitespace).reverse
  have hlast : (s.toList.dropWhile Text.isWhitespace).reverse.getLast? = some c := by
    rw [hb, List.getLast?_append, h]
    rfl
  rw [List.getLast?_reverse] at hlast
  have hnot := List.head?_dropWhile_not Text.isWhitespace s.toList
  rw [hlast] at hnot
  simpa using hnot

end Margins

section Contents

variable {x : Char} {k : Nat} {w o u v a b m r r' : List Char}

theorem not_begins_before (hlength : w.length < o.length) (hk : o.length ≤ k) (hfirst : o.head? ≠ some x)
    (hlast : o.getLast? ≠ some x)
    : ∀ i < (w ++ List.replicate k x).length, ¬o <+: ((w ++ List.replicate k x) ++ o).drop i := by
  intro i hi hbegins
  have hrow {n : Nat} (hle : w.length ≤ n) (hlt : n < w.length + k)
      : ((w ++ List.replicate k x) ++ o)[n]? = some x := by
    rw [List.getElem?_append_left (by simpa using hlt), List.getElem?_append_right hle,
      List.getElem?_replicate, if_pos (by omega)]
  have hsame {j : Nat} (hj : j < o.length) : ((w ++ List.replicate k x) ++ o)[i + j]? = o[j]? := by
    obtain ⟨rest, hrest⟩ := hbegins
    rw [← List.getElem?_drop, ← hrest, List.getElem?_append_left hj]
  rw [List.length_append, List.length_replicate] at hi
  rcases Nat.lt_or_ge i w.length with hlt | hge
  . have hend := hsame (j := o.length - 1) (by omega)
    rw [hrow (by omega) (by omega), ← List.getLast?_eq_getElem?] at hend
    exact hlast hend.symm
  . have hstart := hsame (j := 0) (by omega)
    rw [hrow (by omega) (by omega), ← List.head?_eq_getElem?] at hstart
    exact hfirst hstart.symm

theorem eq_nil_of_shift (hm : m.length ≤ k) (hr : r.head? ≠ some x)
    (h : List.replicate k x ++ r = m ++ (List.replicate k x ++ r'))
    : m = [] := by
  have hmrow : m = List.replicate m.length x := by
    have htake := congrArg (List.take m.length) h
    rw [List.take_left, List.take_append_of_le_length (by simpa using hm), List.take_replicate,
      min_eq_left hm] at htake
    exact htake.symm
  generalize m.length = n at hm hmrow
  subst hmrow
  rw [← List.append_assoc, List.replicate_append_replicate, Nat.add_comm, ← List.replicate_append_replicate,
    List.append_assoc, List.append_cancel_left_eq] at h
  cases n with
  | zero => rfl
  | succ n =>
    rw [List.replicate_succ, List.cons_append] at h
    rw [h] at hr
    exact absurd rfl hr

theorem exists_other (c d : Option Char) : ∃ x, Text.isWhitespace x = false ∧ c ≠ some x ∧ d ≠ some x := by
  by_cases ha : c ≠ some 'a' ∧ d ≠ some 'a'
  . exact ⟨'a', by decide, ha⟩
  . by_cases hb : c ≠ some 'b' ∧ d ≠ some 'b'
    . exact ⟨'b', by decide, hb⟩
    . refine ⟨'c', by decide, ?_⟩
      constructor
      . rintro rfl
        simp_all
      . rintro rfl
        simp_all

end Contents

section Replaced

def edited (all : Bool) (p v s : List Char) : List Char :=
  if all then Substitution.replace p v s else Substitution.replaceFirst p v s

variable {all : Bool} {p u v a b t : List Char} {c : Char}

theorem edited_hit (all : Bool) (hp : p ≠ []) (v : List Char) : edited all p v p = v := by
  unfold edited
  split
  . have hhit := Substitution.replace_hit (v := v) hp []
    rw [List.append_nil] at hhit
    rw [hhit, Substitution.replace, Substitution.substitute_nil, List.append_nil]
  . have hhit := Substitution.replaceFirst_hit p v []
    rwa [List.append_nil, List.append_nil] at hhit

theorem edited_skip (h : ∀ i < t.length, ¬p <+: (t ++ p).drop i) (hp : p ≠ [])
    : edited all p v (t ++ p) = t ++ v := by
  have hhit := edited_hit all hp v
  unfold edited at *
  split
  . rw [if_pos ‹_›] at hhit
    rw [Substitution.replace_skip h, hhit]
  . rw [if_neg ‹_›] at hhit
    rw [Substitution.replaceFirst_skip h, hhit]

theorem edited_between (hc : u.head? = some c) (ha : c ∉ a) (hb : c ∉ b)
    : edited all u v (a ++ (u ++ b)) = a ++ (v ++ b) := by
  have hu : u ≠ [] := by
    rintro rfl
    cases hc
  obtain ⟨q, rfl⟩ : ∃ q, u = c :: q := by
    cases u with
    | nil => exact absurd rfl hu
    | cons d q =>
      rw [List.head?_cons, Option.some.injEq] at hc
      exact ⟨q, by rw [hc]⟩
  have hskip := @Substitution.not_prefix_of_notMem _ c q a ((c :: q) ++ b) ha
  unfold edited
  split
  . rw [Substitution.replace_skip hskip, Substitution.replace_hit hu, Substitution.replace_of_notMem hb]
  . rw [Substitution.replaceFirst_skip hskip, Substitution.replaceFirst_hit]

end Replaced

section Verbatim

variable {all : Bool} {u v a b : List Char} {x c d : Char} {k : Nat}

theorem head?_between (hu : u ≠ []) (ha : ∀ c ∈ a, Text.isWhitespace c = true)
    (hx : Text.isWhitespace x = false) (hhead : u.head? ≠ some x)
    : (a ++ (u ++ b)).head? ≠ some x := by
  cases a with
  | nil =>
    rw [List.nil_append, List.head?_append_of_ne_nil _ hu]
    exact hhead
  | cons e a =>
    rw [List.cons_append, List.head?_cons, ne_eq, Option.some.injEq]
    rintro rfl
    rw [ha e List.mem_cons_self] at hx
    cases hx

theorem getLast?_between (hu : u ≠ []) (hb : ∀ c ∈ b, Text.isWhitespace c = true)
    (hx : Text.isWhitespace x = false) (hlast : u.getLast? ≠ some x)
    : (a ++ (u ++ b)).getLast? ≠ some x := by
  cases hend : b.getLast? with
  | none =>
    rw [List.getLast?_eq_none_iff] at hend
    rw [hend, List.append_nil, List.getLast?_append_of_ne_nil _ hu]
    exact hlast
  | some e =>
    have hne : b ≠ [] := by
      rintro rfl
      cases hend
    rw [← List.append_assoc, List.getLast?_append_of_ne_nil _ hne, hend, ne_eq, Option.some.injEq]
    rintro rfl
    rw [hb e (List.mem_of_getLast? hend)] at hx
    cases hx

theorem eq_of_edited_row (hc : u.head? = some c) (hd : v.head? = some d) (hspace : Text.isWhitespace c = false)
    (ha : ∀ c ∈ a, Text.isWhitespace c = true) (hb : ∀ c ∈ b, Text.isWhitespace c = true)
    (hmargin : a ++ b ≠ []) (hx : Text.isWhitespace x = false) (hhead : u.head? ≠ some x)
    (hlast : u.getLast? ≠ some x) (hk : (a ++ (u ++ b)).length + v.length ≤ k)
    (h : edited all u v ((u ++ List.replicate k x) ++ (a ++ (u ++ b))) =
      edited all (a ++ (u ++ b)) (a ++ (v ++ b)) ((u ++ List.replicate k x) ++ (a ++ (u ++ b))))
    : u = v := by
  have hu : u ≠ [] := by
    rintro rfl
    cases hc
  have hne : a ++ (u ++ b) ≠ [] := by simp [hu]
  have hlength : u.length < (a ++ (u ++ b)).length := by
    have hpos := List.length_pos_iff.mpr hmargin
    rw [List.length_append] at hpos ⊢
    rw [List.length_append]
    omega
  have hnotMem {l : List Char} (hl : ∀ c ∈ l, Text.isWhitespace c = true) : c ∉ l := by
    intro hmem
    rw [hl c hmem] at hspace
    cases hspace
  have hskip := not_begins_before hlength (by omega : (a ++ (u ++ b)).length ≤ k)
    (head?_between (b := b) hu ha hx hhead) (getLast?_between (a := a) hu hb hx hlast)
  rw [edited_skip hskip hne] at h
  cases all with
  | true =>
    have hrow : c ∉ List.replicate k x ++ a := by
      rw [List.mem_append, not_or]
      refine ⟨?_, hnotMem ha⟩
      intro hmem
      rw [List.eq_of_mem_replicate hmem] at hc
      exact hhead hc
    have hbetween : edited true u v _ = _ := edited_between hc hrow (hnotMem hb)
    unfold edited at h hbetween
    rw [if_pos rfl] at h hbetween
    rw [List.append_assoc] at hbetween
    rw [List.append_assoc, Substitution.replace_hit hu, hbetween] at h
    simp only [List.append_assoc] at h
    exact (List.append_cancel_right_eq _ _ _ |>.mp h).symm
  | false =>
    unfold edited at h
    rw [if_neg (by decide), List.append_assoc, Substitution.replaceFirst_hit, List.append_assoc] at h
    rw [List.length_append, List.length_append] at hk
    rcases List.append_eq_append_iff.mp h with ⟨m, hum, hrest⟩ | ⟨m, hvm, hrest⟩
    . -- The new text is the shorter one.
      have hm : m = [] := by
        have hmlength := congrArg List.length hum
        rw [List.length_append] at hmlength
        exact eq_nil_of_shift (by omega) (head?_between hu ha hx hhead) hrest
      rw [hum, hm, List.append_nil]
    . have hv : v ≠ [] := by
        rintro rfl
        cases hd
      have hhead' : v.head? ≠ some x := by
        rw [hvm, List.head?_append_of_ne_nil _ hu]
        exact hhead
      have hm : m = [] := by
        have hmlength := congrArg List.length hvm
        rw [List.length_append] at hmlength
        exact eq_nil_of_shift (by omega) (head?_between hv ha hx hhead') hrest
      rw [hvm, hm, List.append_nil]

end Verbatim

section Texts

variable {all : Bool} {content old new : String}

theorem replaced_eq (all : Bool) (content old new : String)
    : replaced all content old new = String.ofList (edited all old.toList new.toList content.toList) := by
  unfold replaced edited
  split <;> rfl

theorem contains_of_append {a b : List Char} (h : content.toList = a ++ (old.toList ++ b))
    : Text.contains content old = true := by
  unfold Text.contains
  rw [List.any_eq_true]
  refine ⟨old.toList ++ b, ?_, ?_⟩
  . rw [List.mem_tails, h]
    exact List.suffix_append a _
  . rw [List.isPrefixOf_iff_prefix]
    exact List.prefix_append _ b

theorem exists_of_contains (h : Text.contains content old = true)
    : ∃ a b, content.toList = a ++ (old.toList ++ b) := by
  unfold Text.contains at h
  obtain ⟨tail, htail, hbegins⟩ := List.any_eq_true.mp h
  obtain ⟨a, ha⟩ := (List.mem_tails _ _).mp htail
  obtain ⟨b, hb⟩ := List.isPrefixOf_iff_prefix.mp hbegins
  exact ⟨a, b, by rw [hb, ha]⟩

theorem contains_trim (h : Text.contains content old = true) : Text.contains content (Text.trim old) = true := by
  obtain ⟨a, b, hcontent⟩ := exists_of_contains h
  obtain ⟨a', b', hold, -, -⟩ := exists_margins old
  apply @contains_of_append _ _ (a ++ a') (b' ++ b)
  rw [hcontent, hold]
  simp only [List.append_assoc]

theorem toList_ne_nil {s : String} (h : s ≠ "") : s.toList ≠ [] := by
  intro hnil
  exact h (String.toList_inj.mp hnil)

theorem exists_head? {l : List Char} (h : l ≠ []) : ∃ c, l.head? = some c :=
  Option.isSome_iff_exists.mp (by rwa [List.isSome_head?])

theorem replaced_trim_iff (hold : Text.trim old ≠ "") (hnew : Text.trim new ≠ "")
    : (∀ content, Text.contains content old →
        replaced all content (Text.trim old) (Text.trim new) = replaced all content old new) ↔
      (Text.trim old = old ∧ Text.trim new = new) ∨ old = new := by
  have hu := toList_ne_nil hold
  constructor
  . intro h
    obtain ⟨a, b, hab, ha, hb⟩ := exists_margins old
    obtain ⟨c, hc⟩ := exists_head? hu
    obtain ⟨d, hd⟩ := exists_head? (toList_ne_nil hnew)
    have hspace := head?_trim hc
    have hnotMem {l : List Char} (hl : ∀ c ∈ l, Text.isWhitespace c = true) : c ∉ l := by
      intro hmem
      rw [hl c hmem] at hspace
      cases hspace
    have hne : old.toList ≠ [] := by
      rw [hab]
      simp [hu]
    -- The text itself as the content shows that both have the same margins.
    have hmargins : new.toList = a ++ ((Text.trim new).toList ++ b) := by
      have hsame := h old (contains_of_append (by simp : old.toList = [] ++ (old.toList ++ [])))
      rw [replaced_eq, replaced_eq, edited_hit all hne, hab, edited_between hc (hnotMem ha) (hnotMem hb)] at hsame
      rw [← String.toList_ofList (l := new.toList), ← hsame, String.toList_ofList]
    by_cases hmargin : a ++ b = []
    . obtain ⟨rfl, rfl⟩ := List.append_eq_nil_iff.mp hmargin
      left
      rw [List.nil_append, List.append_nil] at hab hmargins
      exact ⟨(String.toList_inj.mp hab).symm, (String.toList_inj.mp hmargins).symm⟩
    . right
      obtain ⟨x, hx, hhead, hlast⟩ := exists_other (Text.trim old).toList.head? (Text.trim old).toList.getLast?
      have hsame := h (String.ofList (((Text.trim old).toList ++ List.replicate
          ((a ++ ((Text.trim old).toList ++ b)).length + (Text.trim new).toList.length) x) ++ old.toList))
        (@contains_of_append _ _ ((Text.trim old).toList ++ List.replicate _ x) [] (by
          rw [String.toList_ofList, List.append_nil]))
      rw [replaced_eq, replaced_eq, String.toList_ofList, hmargins, hab] at hsame
      have htrim := eq_of_edited_row hc hd hspace ha hb hmargin hx hhead hlast le_rfl (String.ofList_injective hsame)
      rw [← String.toList_inj, hab, hmargins, htrim]
  . rintro (⟨hold', hnew'⟩ | rfl)
    . intro content _
      rw [hold', hnew']
    . intro content _
      unfold replaced
      rw [Substitution.replace_same hu, Substitution.replaceFirst_same, Substitution.replaceFirst_same]
      rw [Substitution.replace_same]
      obtain ⟨a, b, hab, -, -⟩ := exists_margins old
      rw [hab]
      simp [hu]

end Texts

namespace Workspace

variable {ws ws' : Workspace} {path current relative q : List String} {raw : String} {e : Entry}

theorem entry_set (hpath : path ≠ []) (q : List String)
    : (ws.set path e).entry q = if q = path then some e else ws.entry q := by
  unfold entry set
  split
  . next hnil =>
    rw [hnil, if_neg (Ne.symm hpath)]
  . exact Function.update_apply ws.entries path (some e) q

theorem createDirAll_dirs (h : createDirAll ws current relative = .ok ws')
    : ws'.root = ws.root ∧ (∀ q e, ws.entry q = some e → ws'.entry q = some e) ∧
      ∀ q, q ≠ [] → q <+: relative → ws'.entry (current ++ q) = some .dir := by
  induction relative generalizing ws current with
  | nil =>
    cases h
    refine ⟨rfl, fun _ _ hq => hq, ?_⟩
    intro q hne hbegins
    exact absurd (List.prefix_nil.mp hbegins) hne
  | cons part relative ih =>
    have hdirs {w : Workspace} (hroot : w.root = ws.root) (hdir : w.entry (current ++ [part]) = some .dir)
        (hkept : ∀ q e, ws.entry q = some e → w.entry q = some e)
        (h : createDirAll w (current ++ [part]) relative = .ok ws')
        : ws'.root = ws.root ∧ (∀ q e, ws.entry q = some e → ws'.entry q = some e) ∧
          ∀ q, q ≠ [] → q <+: part :: relative → ws'.entry (current ++ q) = some .dir := by
      obtain ⟨hroot', hkept', hbelow⟩ := ih h
      refine ⟨hroot'.trans hroot, fun q e hq => hkept' q e (hkept q e hq), ?_⟩
      intro q hne hbegins
      obtain ⟨first, q, rfl⟩ := List.exists_cons_of_ne_nil hne
      obtain ⟨rfl, hrest⟩ := List.cons_prefix_cons.mp hbegins
      by_cases hq : q = []
      . rw [hq]
        exact hkept' _ _ hdir
      . have hentry := hbelow q hq hrest
        rwa [List.append_assoc] at hentry
    unfold createDirAll at h
    split at h
    . next hdir => exact hdirs rfl hdir (fun _ _ hq => hq) h
    . cases h
    . next hnone =>
      have hne : current ++ [part] ≠ [] := by simp
      refine hdirs (w := ws.set (current ++ [part]) .dir) rfl ?_ ?_ h
      . rw [entry_set hne, if_pos rfl]
      . intro q e hq
        rw [entry_set hne, if_neg]
        . exact hq
        . rintro rfl
          rw [hnone] at hq
          cases hq

theorem rejectSymlinkComponents_eq_ok
    (h : ∀ q, q ≠ [] → q <+: relative → ∃ e, ws.entry (current ++ q) = some e ∧ e ≠ .symlink)
    : ws.rejectSymlinkComponents raw current relative = .ok () := by
  induction relative generalizing current with
  | nil => rfl
  | cons part relative ih =>
    obtain ⟨e, he, hsymlink⟩ := h [part] (by simp) (by simp)
    have hmetadata : ws.symlinkMetadata (current ++ [part]) = .ok e := by
      unfold symlinkMetadata
      rw [he]
    have hrest : ws.rejectSymlinkComponents raw (current ++ [part]) relative = .ok () := by
      apply ih
      intro q _ hbegins
      have hentry := h (part :: q) (by simp) (List.cons_prefix_cons.mpr ⟨rfl, hbegins⟩)
      rwa [List.append_assoc]
    unfold rejectSymlinkComponents
    rw [hmetadata]
    cases e with
    | file _ => exact hrest
    | dir => exact hrest
    | symlink => exact absurd rfl hsymlink

theorem resolveWritePath_eq_ok (h : ws.resolveWritePath raw = .ok (path, ws'))
    : ws.resolveLexicalPath raw = .ok path ∧ path ≠ [] ∧ createDirAll ws [] path.dropLast = .ok ws' := by
  unfold resolveWritePath at h
  obtain ⟨path', hlexical, h⟩ := Checked.bind_eq_ok.mp h
  obtain ⟨-, -, h⟩ := Checked.bind_eq_ok.mp h
  split at h
  . cases h
  . next hne =>
    obtain ⟨ws₁, hdirs, h⟩ := Checked.bind_eq_ok.mp h
    obtain ⟨-, -, h⟩ := Checked.bind_eq_ok.mp h
    cases h
    exact ⟨hlexical, hne, hdirs⟩

theorem resolveLexicalPath_congr (h : ws'.root = ws.root) : ws'.resolveLexicalPath raw = ws.resolveLexicalPath raw := by
  unfold resolveLexicalPath
  rw [h]

theorem resolveExistingPath_of_written {content : String} (h : ws.resolveWritePath raw = .ok (path, ws'))
    : (ws'.set path (.file content)).resolveExistingPath raw = .ok path := by
  obtain ⟨hlexical, hne, hdirs⟩ := resolveWritePath_eq_ok h
  obtain ⟨hroot, -, hbelow⟩ := createDirAll_dirs hdirs
  have hfile : (ws'.set path (.file content)).entry path = some (.file content) := by
    rw [entry_set hne, if_pos rfl]
  have hreject : (ws'.set path (.file content)).rejectSymlinkComponents raw [] path = .ok () := by
    apply rejectSymlinkComponents_eq_ok
    intro q hq hbegins
    by_cases hwhole : q = path
    . rw [hwhole]
      exact ⟨_, hfile, by simp⟩
    . -- A beginning that is not the whole path is a directory on the way to it.
      have hparent : q <+: path.dropLast := by
        rw [← List.dropLast_concat_getLast hne, List.prefix_concat_iff,
          List.dropLast_concat_getLast hne] at hbegins
        exact hbegins.resolve_left hwhole
      refine ⟨.dir, ?_, by simp⟩
      rw [List.nil_append, entry_set hne, if_neg hwhole]
      exact hbelow q hq hparent
  have hsame : (ws'.set path (.file content)).resolveLexicalPath raw = .ok path := by
    rw [← hlexical]
    exact resolveLexicalPath_congr hroot
  unfold resolveExistingPath
  rw [Checked.bind_eq_ok]
  refine ⟨path, hsame, ?_⟩
  rw [Checked.bind_eq_ok]
  refine ⟨(), hreject, ?_⟩
  unfold symlinkMetadata
  rw [hfile]

end Workspace

section Calls

variable {F : Type} {ws ws' : Workspace} {input : Json F} {raw s old new content : String} {path : List String}
variable {all : Bool}

def readInput (F : Type) (raw : String) : Json F :=
  .dict [("path", .str raw)]

def writeInput (F : Type) (raw s : String) : Json F :=
  .dict [("path", .str raw), ("content", .str s)]

def editInput (F : Type) (raw old new : String) (all : Bool) : Json F :=
  .dict [("path", .str raw), ("old_text", .str old), ("new_text", .str new), ("replace_all", .bool all)]

structure Writable (ws : Workspace) (raw : String) : Prop where
  named : Text.trim raw ≠ ""
  resolves : ∃ path ws', ws.resolveWritePath (Text.trim raw) = .ok (path, ws') ∧ ws'.entry path ≠ some .dir

structure Readable (ws : Workspace) (raw : String) (path : List String) (content : String) : Prop where
  named : Text.trim raw ≠ ""
  resolves : ws.resolveExistingPath (Text.trim raw) = .ok path
  reads : ws.read path = .ok content

def RoundTrips (F : Type) (ws : Workspace) (raw s : String) : Prop :=
  ∃ written ws' result, writeTool ws (writeInput F raw s) = .ok (written, ws') ∧
    readTool ws' (readInput F raw) = .ok result ∧ result.content = s

def EditsVerbatim (F : Type) (old new : String) (all : Bool) : Prop :=
  ∀ ws raw path content, Readable ws raw path content → Text.contains content old = true →
    ∃ result, editTool ws (editInput F raw old new all) false =
      .ok (result, ws.set path (.file (replaced all content old new)))

theorem stringAny_of_field {key : String} {keys : List String} (h : field input key = some (.str s))
    (hs : Text.trim s ≠ "")
    : stringAny input (key :: keys) = .ok (Text.trim s) := by
  have hfilter : (((some (.str s : Json F)).bind Json.asStr).map Text.trim).filter (· ≠ "") = some (Text.trim s) := by
    simpa [Json.asStr] using hs
  unfold stringAny stringOpt
  rw [List.findSome?_cons, h, hfilter]
  rfl

theorem stringAny_of_blank {key : String} {keys : List String} (h : field input key = some (.str s))
    (hs : Text.trim s = "") (hkeys : ∀ key ∈ keys, field input key = none)
    : stringAny input (key :: keys) = .error ("missing " ++ String.intercalate "/" (key :: keys)) := by
  have hfilter : (((some (.str s : Json F)).bind Json.asStr).map Text.trim).filter (· ≠ "") = none := by
    simpa [Json.asStr] using hs
  have hnone : keys.findSome? (fun key => (((field input key).bind Json.asStr).map Text.trim).filter (· ≠ "")) =
      none := by
    rw [List.findSome?_eq_none_iff]
    intro key hkey
    rw [hkeys key hkey]
    rfl
  unfold stringAny stringOpt
  rw [List.findSome?_cons, h, hfilter, hnone]
  rfl

theorem length_le_utf8ByteSize (l : List Char) : l.length ≤ (String.ofList l).utf8ByteSize := by
  rw [String.utf8ByteSize_ofList]
  induction l with
  | nil => exact Nat.zero_le _
  | cons c l ih =>
    have hpos := c.utf8Size_pos
    rw [String.utf8Len_cons, List.length_cons]
    omega

theorem sliceChars_all (content : String) : sliceChars content 0 content.utf8ByteSize = content := by
  have hle := length_le_utf8ByteSize content.toList
  rw [String.ofList_toList] at hle
  unfold sliceChars
  rw [List.drop_zero, List.take_of_length_le hle, String.ofList_toList]

theorem readTool_of_readable (h : Readable ws raw path content)
    : ∃ result, readTool ws (readInput F raw) = .ok result ∧ result.content = content := by
  obtain ⟨hnamed, hresolve, hread⟩ := h
  have hpath : inputPath (readInput F raw) = .ok (Text.trim raw) := stringAny_of_field rfl hnamed
  have hsliced : sliceChars content ((usizeField (readInput F raw) "offset").getD 0)
      ((usizeField (readInput F raw) "limit").getD content.utf8ByteSize) = content := sliceChars_all content
  unfold readTool
  simp only [Checked.bind_eq_ok]
  exact ⟨_, ⟨_, hpath, _, hresolve, _, hread, rfl⟩, hsliced⟩

theorem writeTool_of_writable (h : Writable ws raw) (hs : Text.trim s ≠ "")
    : ∃ written path ws', writeTool ws (writeInput F raw s) = .ok (written, ws') ∧
      Readable ws' raw path (Text.trim s) := by
  obtain ⟨hnamed, path, w, hresolve, hdir⟩ := h
  have hpath : inputPath (writeInput F raw s) = .ok (Text.trim raw) := stringAny_of_field rfl hnamed
  have hcontent : stringAny (writeInput F raw s) ["content", "text", "data"] = .ok (Text.trim s) :=
    stringAny_of_field rfl hs
  have hwrite : w.write path (Text.trim s) = .ok (w.set path (.file (Text.trim s))) := by
    unfold Workspace.write
    split
    . exact absurd ‹_› hdir
    . rfl
  have hread : (w.set path (.file (Text.trim s))).read path = .ok (Text.trim s) := by
    unfold Workspace.read
    rw [Workspace.entry_set (Workspace.resolveWritePath_eq_ok hresolve).2.1, if_pos rfl]
  unfold writeTool
  simp only [Checked.bind_eq_ok]
  exact ⟨_, path, _, ⟨_, hpath, _, hcontent, _, hresolve, _, hwrite, rfl⟩, hnamed,
    Workspace.resolveExistingPath_of_written hresolve, hread⟩

theorem roundTrips_iff (h : Writable ws raw) : RoundTrips F ws raw s ↔ Text.trim s = s ∧ s ≠ "" := by
  constructor
  . rintro ⟨written, ws', result, hwrite, hread, hcontent⟩
    have hs : Text.trim s ≠ "" := by
      intro hblank
      unfold writeTool at hwrite
      obtain ⟨_, _, hwrite⟩ := Checked.bind_eq_ok.mp hwrite
      obtain ⟨c, hc, -⟩ := Checked.bind_eq_ok.mp hwrite
      have hmissing : stringAny (writeInput F raw s) ["content", "text", "data"] = _ :=
        stringAny_of_blank rfl hblank (by simp [writeInput, field, Json.get])
      rw [hmissing] at hc
      cases hc
    obtain ⟨written', path, w, hwrite', hreadable⟩ := writeTool_of_writable (F := F) h hs
    obtain ⟨result', hread', hcontent'⟩ := readTool_of_readable (F := F) hreadable
    rw [hwrite'] at hwrite
    cases hwrite
    rw [hread'] at hread
    cases hread
    have htrim : Text.trim s = s := hcontent'.symm.trans hcontent
    rw [htrim] at hs
    exact ⟨htrim, hs⟩
  . rintro ⟨hs, hne⟩
    rw [← hs] at hne
    obtain ⟨written, path, ws', hwrite, hreadable⟩ := writeTool_of_writable (F := F) h hne
    obtain ⟨result, hread, hcontent⟩ := readTool_of_readable (F := F) hreadable
    exact ⟨written, ws', result, hwrite, hread, hcontent.trans hs⟩

theorem Readable.write (h : Readable ws raw path content) (changed : String)
    : ws.write path changed = .ok (ws.set path (.file changed)) := by
  have hread := h.reads
  unfold Workspace.write
  split
  . next hdir =>
    unfold Workspace.read at hread
    rw [hdir] at hread
    cases hread
  . rfl

theorem editTool_of_readable (h : Readable ws raw path content) (hold : Text.trim old ≠ "")
    (hnew : Text.trim new ≠ "") (hcontains : Text.contains content old = true)
    : ∃ result, editTool ws (editInput F raw old new all) false =
      .ok (result, ws.set path (.file (replaced all content (Text.trim old) (Text.trim new)))) := by
  have hpath : inputPath (editInput F raw old new all) = .ok (Text.trim raw) := stringAny_of_field rfl h.named
  have holdText : stringAny (editInput F raw old new all) ["old_text", "old", "target"] = .ok (Text.trim old) :=
    stringAny_of_field rfl hold
  have hnewText : stringAny (editInput F raw old new all) ["new_text", "new", "replacement"] = .ok (Text.trim new) :=
    stringAny_of_field rfl hnew
  have hall : (boolField (editInput F raw old new all) "replace_all").getD false = all := rfl
  let changed := replaced all content (Text.trim old) (Text.trim new)
  refine ⟨⟨Text.trim raw, false, changed ≠ content, makeSimpleDiff content changed⟩, ?_⟩
  unfold editTool
  simp only [Checked.bind_eq_ok, hall]
  refine ⟨_, hpath, _, holdText, _, hnewText, _, h.resolves, _, h.reads, ?_⟩
  rw [contains_trim hcontains]
  simp only [Bool.not_true, Bool.false_eq_true, if_false, Checked.bind_eq_ok]
  exact ⟨_, h.write _, rfl⟩

theorem stringAny_blank_ne_ok {key v : String} {keys : List String} (h : field input key = some (.str s))
    (hkeys : ∀ key ∈ keys, field input key = none) (hok : stringAny input (key :: keys) = .ok v)
    : Text.trim s ≠ "" := by
  intro hs
  rw [stringAny_of_blank h hs hkeys] at hok
  cases hok

def oneFile (content : String) : Workspace where
  root := ["workspace"]
  entries path := if path = ["f"] then some (.file content) else none

theorem readable_oneFile (content : String) : Readable (oneFile content) "f" ["f"] content := by
  have htrim : Text.trim "f" = "f" := by decide +kernel
  have hrelative : isAbsolute "f" = false ∧ components "f" = ["f"] := by decide +kernel
  refine ⟨by decide +kernel, ?_, rfl⟩
  rw [htrim]
  unfold Workspace.resolveExistingPath Workspace.resolveLexicalPath
  rw [hrelative.1, hrelative.2]
  rfl

theorem editsVerbatim_iff : EditsVerbatim F old new all ↔
    Text.trim old ≠ "" ∧ Text.trim new ≠ "" ∧ ((Text.trim old = old ∧ Text.trim new = new) ∨ old = new) := by
  constructor
  . intro h
    have hsucceeds (content : String) (hcontains : Text.contains content old = true) :=
      h (oneFile content) "f" ["f"] content (readable_oneFile content) hcontains
    obtain ⟨result, hresult⟩ := hsucceeds old
      (contains_of_append (by simp : old.toList = [] ++ (old.toList ++ [])))
    obtain ⟨hold, hnew⟩ : Text.trim old ≠ "" ∧ Text.trim new ≠ "" := by
      unfold editTool at hresult
      obtain ⟨_, -, hresult⟩ := Checked.bind_eq_ok.mp hresult
      obtain ⟨o, hold, hresult⟩ := Checked.bind_eq_ok.mp hresult
      obtain ⟨n, hnew, -⟩ := Checked.bind_eq_ok.mp hresult
      constructor
      . exact stringAny_blank_ne_ok rfl (by simp [editInput, field, Json.get]) hold
      . exact stringAny_blank_ne_ok rfl (by simp [editInput, field, Json.get]) hnew
    refine ⟨hold, hnew, (@replaced_trim_iff all _ _ hold hnew).mp ?_⟩
    intro content hcontains
    obtain ⟨result, hverbatim⟩ := hsucceeds content hcontains
    obtain ⟨result', htrimmed⟩ := @editTool_of_readable F _ _ _ _ _ _ all (readable_oneFile content) hold hnew hcontains
    rw [hverbatim] at htrimmed
    have hentries := congrArg (fun e : Except String (EditResult × Workspace) =>
      e.toOption.map (fun r => r.2.entries ["f"])) htrimmed
    simpa [Workspace.set, Except.toOption] using hentries.symm
  . rintro ⟨hold, hnew, hsame⟩ ws raw path content hreadable hcontains
    rw [← (replaced_trim_iff hold hnew).mpr hsame content hcontains]
    exact editTool_of_readable hreadable hold hnew hcontains

/--
Texts are transferred as they are where they have no margins of whitespace and are not empty.
-/
theorem transfersVerbatim_iff
    : (∀ ws raw s, Writable ws raw → (RoundTrips F ws raw s ↔ Text.trim s = s ∧ s ≠ "")) ∧
      ∀ old new all, EditsVerbatim F old new all ↔
        Text.trim old ≠ "" ∧ Text.trim new ≠ "" ∧ ((Text.trim old = old ∧ Text.trim new = new) ∨ old = new) := by
  constructor
  . intro ws raw s h
    exact roundTrips_iff h
  . intro old new all
    exact editsVerbatim_iff

theorem writable_oneFile (content : String) : Writable (oneFile content) "f" := by
  have htrim : Text.trim "f" = "f" := by decide +kernel
  have hrelative : isAbsolute "f" = false ∧ components "f" = ["f"] := by decide +kernel
  refine ⟨by decide +kernel, ["f"], oneFile content, ?_, by simp [Workspace.entry, oneFile]⟩
  rw [htrim]
  unfold Workspace.resolveWritePath Workspace.resolveLexicalPath
  rw [hrelative.1, hrelative.2]
  rfl

theorem word_transferred : RoundTrips Unit (oneFile "") "f" "x" :=
  (transfersVerbatim_iff.1 _ _ "x" (writable_oneFile "")).mpr (by decide +kernel)

/--
A leading space is lost.
-/
theorem indented_content_trimmed : ¬((∀ ws raw s, Writable ws raw → RoundTrips Unit ws raw s) ∧
    ∀ old new all, EditsVerbatim Unit old new all) := by
  intro h
  have htrim := (roundTrips_iff (writable_oneFile "")).mp (h.1 (oneFile "") "f" " x" (writable_oneFile ""))
  exact absurd htrim.1 (by decide +kernel)

end Calls

end LocalTools
end Agent
end MemStack
