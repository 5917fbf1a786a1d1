import MemStack.Util.Lists

/-!
This module contains the substitution of placeholders in a text, all at once or one after the other. A
placeholder is a name between an opening and a closing symbol, so that two of them never overlap.
-/

namespace Substitution

open History

variable {α : Type} [DecidableEq α]

abbrev Var (α : Type) := List α × List α

def substituteFrom (vars : List (Var α)) : Nat → List α → List α
  | _, [] => []
  | k + 1, _ :: s => substituteFrom vars k s
  | 0, a :: s =>
    match vars.find? (·.1.isPrefixOf (a :: s)) with
    | some var => var.2 ++ substituteFrom vars (var.1.length - 1) s
    | none => a :: substituteFrom vars 0 s

def substitute (vars : List (Var α)) (s : List α) : List α :=
  substituteFrom vars 0 s

def replace (p v s : List α) : List α :=
  substitute [(p, v)] s

def replaceFirst (p v : List α) : List α → List α
  | [] => if p = [] then v else []
  | a :: s => if p.isPrefixOf (a :: s) then v ++ (a :: s).drop p.length else a :: replaceFirst p v s

def replaceEach (vars : List (Var α)) (s : List α) : List α :=
  vars.foldl (fun s var => replace var.1 var.2 s) s

def occurrences (p s : List α) : Nat :=
  s.tails.countP (p.isPrefixOf ·)

structure Delimited (opening closing : α) (p : List α) : Prop where
  exists_name : ∃ name, p = opening :: (name ++ [closing]) ∧ opening ∉ name ++ [closing] ∧ closing ∉ name

structure Placeholders (opening closing : α) (vars : List (Var α)) : Prop where
  delimited : ∀ var ∈ vars, Delimited opening closing var.1
  nodup : (vars.map Prod.fst).Nodup

variable {opening closing a : α} {p p' v s t w rest : List α} {vars : List (Var α)} {var : Var α}

omit [DecidableEq α] in
theorem Delimited.ne_nil (h : Delimited opening closing p) : p ≠ [] := by
  obtain ⟨name, rfl, -⟩ := h.exists_name
  exact List.cons_ne_nil _ _

omit [DecidableEq α] in
theorem Delimited.eq_of_begins (h : Delimited opening closing p) (h' : Delimited opening closing p')
    (hbegins : p' <+: p ++ rest)
    : p' = p := by
  obtain ⟨name, rfl, -, hclosing⟩ := h.exists_name
  obtain ⟨name', rfl, -, hclosing'⟩ := h'.exists_name
  rw [List.cons_append, List.cons_prefix_cons] at hbegins
  obtain ⟨tail, htail⟩ := hbegins.2
  rw [List.append_assoc, List.append_assoc] at htail
  rw [(Lists.append_cons_inj hclosing' hclosing htail).1]

omit [DecidableEq α] in
theorem Delimited.prefix_of_append (h : Delimited opening closing p) (ht : t ≠ [])
    (hbegins : p <+: t ++ opening :: rest)
    : p <+: t := by
  obtain ⟨name, rfl, hopening, -⟩ := h.exists_name
  obtain ⟨tail, htail⟩ := hbegins
  rcases List.append_eq_append_iff.mp htail with ⟨m, rfl, -⟩ | ⟨m, hm, hrest⟩
  . exact List.prefix_append _ m
  . cases m with
    | nil =>
      rw [hm, List.append_nil]
    | cons c m =>
      rw [List.cons_append, List.cons.injEq] at hrest
      obtain ⟨b, t, rfl⟩ := List.exists_cons_of_ne_nil ht
      rw [List.cons_append, List.cons.injEq] at hm
      rw [hm.2, ← hrest.1] at hopening
      simp at hopening

omit [DecidableEq α] in
theorem Delimited.not_begins (h : Delimited opening closing p) (ha : a ≠ opening) : ¬p <+: a :: s := by
  obtain ⟨name, rfl, -⟩ := h.exists_name
  rw [List.cons_prefix_cons]
  intro hbegins
  exact ha hbegins.1.symm

theorem substituteFrom_length_append : substituteFrom vars w.length (w ++ s) = substitute vars s := by
  induction w with
  | nil => rfl
  | cons a w ih => exact ih

@[simp]
theorem substitute_nil : substitute vars [] = [] :=
  rfl

theorem substitute_of_misses (h : ∀ var ∈ vars, ¬var.1 <+: a :: s)
    : substitute vars (a :: s) = a :: substitute vars s := by
  have hfind : vars.find? (·.1.isPrefixOf (a :: s)) = none := by
    rw [List.find?_eq_none]
    intro var hvar hbegins
    exact h var hvar (List.isPrefixOf_iff_prefix.mp hbegins)
  rw [substitute, substituteFrom, hfind]
  rfl

@[simp]
theorem substitute_nothing (s : List α) : substitute [] s = s := by
  induction s with
  | nil => rfl
  | cons a s ih => rw [substitute_of_misses (by simp), ih]

section Vars

variable (hvars : Placeholders opening closing vars)
include hvars

theorem substitute_var (hvar : var ∈ vars) : substitute vars (var.1 ++ s) = var.2 ++ substitute vars s := by
  have hfind : vars.find? (·.1.isPrefixOf (var.1 ++ s)) = some var := by
    cases hfind : vars.find? (·.1.isPrefixOf (var.1 ++ s)) with
    | none =>
      rw [List.find?_eq_none] at hfind
      exact absurd (List.isPrefixOf_iff_prefix.mpr (List.prefix_append _ _)) (hfind var hvar)
    | some var' =>
      have hmem := List.mem_of_find?_eq_some hfind
      have hbegins : var'.1 <+: var.1 ++ s := by
        rw [← List.isPrefixOf_iff_prefix]
        simpa using List.find?_some hfind
      have heq := (hvars.delimited var hvar).eq_of_begins (hvars.delimited var' hmem) hbegins
      rw [List.inj_on_of_nodup_map hvars.nodup hmem hvar heq]
  obtain ⟨a, w, hcons⟩ := List.exists_cons_of_ne_nil (hvars.delimited var hvar).ne_nil
  rw [hcons, List.cons_append] at hfind ⊢
  rw [substitute, substituteFrom, hfind]
  dsimp only
  rw [hcons]
  exact congrArg _ substituteFrom_length_append

theorem scan_induction {P : List α → Prop} (nil : P []) (hit : ∀ var ∈ vars, ∀ s, P s → P (var.1 ++ s))
    (miss : ∀ a s, (∀ var ∈ vars, ¬var.1 <+: a :: s) → P s → P (a :: s)) (s : List α)
    : P s := by
  induction hn : s.length using Nat.strongRecOn generalizing s with
  | ind n ih =>
    cases s with
    | nil => exact nil
    | cons a s =>
      by_cases hbegins : ∃ var ∈ vars, var.1 <+: a :: s
      . obtain ⟨var, hvar, tail, htail⟩ := hbegins
        rw [← htail] at hn ⊢
        apply hit var hvar
        apply ih tail.length _ tail rfl
        have := List.length_pos_iff.mpr (hvars.delimited var hvar).ne_nil
        rw [List.length_append] at hn
        omega
      . push Not at hbegins
        apply miss a s hbegins
        apply ih s.length _ s rfl
        rw [← hn]
        exact Nat.lt_succ_self _

theorem substitute_append_opening
    : substitute vars (t ++ opening :: rest) = substitute vars t ++ substitute vars (opening :: rest) := by
  apply scan_induction hvars (P := fun t =>
    substitute vars (t ++ opening :: rest) = substitute vars t ++ substitute vars (opening :: rest))
  . rfl
  . intro var hvar t ih
    rw [List.append_assoc, substitute_var hvars hvar, substitute_var hvars hvar, ih, List.append_assoc]
  . intro a t hmiss ih
    have hmiss' : ∀ var ∈ vars, ¬var.1 <+: a :: (t ++ opening :: rest) := by
      intro var hvar hbegins
      exact hmiss var hvar ((hvars.delimited var hvar).prefix_of_append (List.cons_ne_nil a t) hbegins)
    rw [List.cons_append, substitute_of_misses hmiss', substitute_of_misses hmiss, ih, List.cons_append]

theorem substitute_append_var (hvar : var ∈ vars)
    : substitute vars (t ++ (var.1 ++ rest)) = substitute vars t ++ (var.2 ++ substitute vars rest) := by
  have hhead := substitute_var (s := rest) hvars hvar
  obtain ⟨name, heq, -⟩ := (hvars.delimited var hvar).exists_name
  rw [heq, List.cons_append] at hhead ⊢
  rw [substitute_append_opening hvars, hhead]

theorem substitute_append_of_notMem (hw : opening ∉ w)
    : substitute vars (w ++ rest) = w ++ substitute vars rest := by
  induction w with
  | nil => rfl
  | cons a w ih =>
    rw [List.mem_cons, not_or] at hw
    rw [List.cons_append, substitute_of_misses, ih hw.2, List.cons_append]
    intro var hvar
    exact (hvars.delimited var hvar).not_begins (Ne.symm hw.1)

theorem substitute_other (hp : Delimited opening closing p) (hnot : p ∉ vars.map Prod.fst)
    : substitute vars (p ++ rest) = p ++ substitute vars rest := by
  have hmiss : ∀ var ∈ vars, ¬var.1 <+: p ++ rest := by
    intro var hvar hbegins
    rw [← hp.eq_of_begins (hvars.delimited var hvar) hbegins] at hnot
    exact hnot (List.mem_map_of_mem hvar)
  obtain ⟨name, rfl, hopening, -⟩ := hp.exists_name
  rw [List.cons_append] at hmiss ⊢
  rw [substitute_of_misses hmiss, substitute_append_of_notMem hvars hopening, List.cons_append]

end Vars

section Occurrences

theorem occurrences_cons : occurrences p (a :: s) = (if p <+: a :: s then 1 else 0) + occurrences p s := by
  unfold occurrences
  rw [List.tails_cons, List.countP_cons, Nat.add_comm]
  congr 1
  by_cases h : p <+: a :: s
  . rw [if_pos h, if_pos (List.isPrefixOf_iff_prefix.mpr h)]
  . rw [if_neg h, if_neg]
    exact fun hbegins => h (List.isPrefixOf_iff_prefix.mp hbegins)

variable (hp : Delimited opening closing p)
include hp

theorem occurrences_nil : occurrences p [] = 0 := by
  obtain ⟨name, rfl, -⟩ := hp.exists_name
  rfl

theorem occurrences_eq_zero_iff : occurrences p s = 0 ↔ ¬p <:+: s := by
  induction s with
  | nil => simp [occurrences_nil hp, hp.ne_nil]
  | cons a s ih =>
    rw [occurrences_cons, List.infix_cons_iff, not_or, ← ih]
    split
    . next h => simp [h]
    . next h => simp [h]

theorem occurrences_append_opening
    : occurrences p (t ++ opening :: rest) = occurrences p t + occurrences p (opening :: rest) := by
  induction t with
  | nil => rw [occurrences_nil hp, Nat.zero_add, List.nil_append]
  | cons a t ih =>
    have hbegins : p <+: a :: (t ++ opening :: rest) ↔ p <+: a :: t :=
      ⟨hp.prefix_of_append (List.cons_ne_nil a t), fun h => h.trans (List.prefix_append (a :: t) _)⟩
    rw [List.cons_append, occurrences_cons, occurrences_cons, ih, Nat.add_assoc]
    simp only [hbegins]

theorem occurrences_append_of_notMem (hw : opening ∉ w) : occurrences p (w ++ rest) = occurrences p rest := by
  induction w with
  | nil => rfl
  | cons a w ih =>
    rw [List.mem_cons, not_or] at hw
    rw [List.cons_append, occurrences_cons, if_neg (hp.not_begins (Ne.symm hw.1)), Nat.zero_add, ih hw.2]

theorem occurrences_append : occurrences p (t ++ (p ++ rest)) = occurrences p t + (occurrences p rest + 1) := by
  have hfirst : p <+: p ++ rest := List.prefix_append p rest
  obtain ⟨name, heq, hopening, -⟩ := hp.exists_name
  rw [heq, List.cons_append] at hfirst ⊢
  rw [← heq] at hfirst ⊢
  rw [occurrences_append_opening hp, occurrences_cons, if_pos hfirst, occurrences_append_of_notMem hp hopening,
    Nat.add_comm 1]

theorem exists_first (h : p <:+: s) : ∃ t rest, s = t ++ (p ++ rest) ∧ ¬p <:+: t := by
  induction s with
  | nil => exact absurd (List.infix_nil.mp h) hp.ne_nil
  | cons a s ih =>
    by_cases hbegins : p <+: a :: s
    . obtain ⟨rest, hrest⟩ := hbegins
      refine ⟨[], rest, hrest.symm, ?_⟩
      rw [List.infix_nil]
      exact hp.ne_nil
    . obtain ⟨t, rest, rfl, hnot⟩ := ih ((List.infix_cons_iff.mp h).resolve_left hbegins)
      refine ⟨a :: t, rest, rfl, ?_⟩
      rw [List.infix_cons_iff, not_or]
      refine ⟨?_, hnot⟩
      intro ht
      exact hbegins (ht.trans (List.prefix_append (a :: t) _))

theorem parts_induction {P : List α → Prop} (free : ∀ t, ¬p <:+: t → P t)
    (part : ∀ t rest, ¬p <:+: t → P rest → P (t ++ (p ++ rest))) (s : List α)
    : P s := by
  induction hn : s.length using Nat.strongRecOn generalizing s with
  | ind n ih =>
    by_cases hoccurs : p <:+: s
    . obtain ⟨t, rest, rfl, hnot⟩ := exists_first hp hoccurs
      apply part t rest hnot
      apply ih rest.length _ rest rfl
      have := List.length_pos_iff.mpr hp.ne_nil
      rw [List.length_append, List.length_append] at hn
      omega
    . exact free s hoccurs

end Occurrences

section Pass

variable (hvars : Placeholders opening closing (vars ++ [(p, v)]))
include hvars

omit [DecidableEq α] in
theorem Placeholders.front : Placeholders opening closing vars where
  delimited var hvar := hvars.delimited var (by simp [hvar])
  nodup := by
    have h := hvars.nodup
    rw [List.map_append, List.nodup_append] at h
    exact h.1

omit [DecidableEq α] in
theorem Placeholders.last : Delimited opening closing p :=
  hvars.delimited (p, v) (by simp)

omit [DecidableEq α] in
theorem Placeholders.notMem : p ∉ vars.map Prod.fst := by
  have h := hvars.nodup
  rw [List.map_append, List.nodup_append] at h
  intro hmem
  exact h.2.2 p hmem p (by simp) rfl

theorem substitute_concat_of_free (h : ¬p <:+: t)
    : substitute (vars ++ [(p, v)]) t = substitute vars t := by
  revert h
  apply scan_induction hvars.front (P := fun t =>
    ¬p <:+: t → substitute (vars ++ [(p, v)]) t = substitute vars t)
  . intro _
    rfl
  . intro var hvar t ih h
    have hrest : ¬p <:+: t := fun hoccurs => h (hoccurs.trans (List.suffix_append var.1 t).isInfix)
    rw [substitute_var hvars (by simp [hvar]), substitute_var hvars.front hvar, ih hrest]
  . intro a t hmiss ih h
    rw [List.infix_cons_iff, not_or] at h
    rw [substitute_of_misses hmiss, substitute_of_misses, ih h.2]
    intro var hvar
    rw [List.mem_append, List.mem_singleton] at hvar
    rcases hvar with hvar | rfl
    . exact hmiss var hvar
    . exact h.1

theorem substitute_append_placeholder
    : substitute vars (t ++ (p ++ rest)) = substitute vars t ++ (p ++ substitute vars rest) := by
  have hother : substitute vars (p ++ rest) = p ++ substitute vars rest :=
    substitute_other hvars.front hvars.last hvars.notMem
  obtain ⟨name, heq, -⟩ := hvars.last.exists_name
  rw [heq, List.cons_append] at hother ⊢
  rw [substitute_append_opening hvars.front, hother, List.cons_append]

theorem exists_blocks (t : List α)
    : ∃ blocks, substitute vars t = p.intercalate blocks ∧
        substitute (vars ++ [(p, v)]) t = v.intercalate blocks ∧ blocks.length = occurrences p t + 1 := by
  apply parts_induction hvars.last (P := fun t =>
    ∃ blocks, substitute vars t = p.intercalate blocks ∧
      substitute (vars ++ [(p, v)]) t = v.intercalate blocks ∧ blocks.length = occurrences p t + 1)
  . intro t hfree
    refine ⟨[substitute vars t], ?_, ?_, ?_⟩
    . simp
    . rw [substitute_concat_of_free hvars hfree]
      simp
    . rw [(occurrences_eq_zero_iff hvars.last).mpr hfree]
      rfl
  . rintro t rest hfree ⟨blocks, hbefore, hafter, hlength⟩
    obtain ⟨block, blocks, rfl⟩ := List.exists_cons_of_length_eq_add_one hlength
    refine ⟨substitute vars t :: block :: blocks, ?_, ?_, ?_⟩
    . rw [substitute_append_placeholder hvars, hbefore, List.intercalate_cons_cons, List.append_assoc]
    . have hvar : substitute (vars ++ [(p, v)]) (t ++ (p ++ rest)) =
          substitute (vars ++ [(p, v)]) t ++ (v ++ substitute (vars ++ [(p, v)]) rest) :=
        substitute_append_var hvars (List.mem_concat_self : (p, v) ∈ _)
      rw [hvar, substitute_concat_of_free hvars hfree, hafter, List.intercalate_cons_cons, List.append_assoc]
    . rw [List.length_cons, hlength, occurrences_append hvars.last,
        (occurrences_eq_zero_iff hvars.last).mpr hfree]
      omega

end Pass

section Anywhere

-- Texts without delimiters, which may overlap with themselves.

omit [DecidableEq α] in
theorem not_prefix_tail (h : ∀ i < (a :: t).length, ¬p <+: ((a :: t) ++ rest).drop i)
    : (¬p <+: a :: (t ++ rest)) ∧ ∀ i < t.length, ¬p <+: (t ++ rest).drop i := by
  constructor
  . exact h 0 (by simp)
  . intro i hi
    exact h (i + 1) (by simpa using hi)

theorem replace_skip (h : ∀ i < t.length, ¬p <+: (t ++ rest).drop i)
    : replace p v (t ++ rest) = t ++ replace p v rest := by
  induction t with
  | nil => rfl
  | cons a t ih =>
    obtain ⟨hfirst, hrest⟩ := not_prefix_tail h
    rw [List.cons_append, replace, substitute_of_misses (by simpa using hfirst), ← replace, ih hrest]
    rfl

theorem replaceFirst_skip (h : ∀ i < t.length, ¬p <+: (t ++ rest).drop i)
    : replaceFirst p v (t ++ rest) = t ++ replaceFirst p v rest := by
  induction t with
  | nil => rfl
  | cons a t ih =>
    obtain ⟨hfirst, hrest⟩ := not_prefix_tail h
    rw [List.cons_append, replaceFirst, if_neg (by rwa [List.isPrefixOf_iff_prefix]), ih hrest]
    rfl

theorem replace_hit (hp : p ≠ []) (s : List α) : replace p v (p ++ s) = v ++ replace p v s := by
  obtain ⟨a, q, rfl⟩ := List.exists_cons_of_ne_nil hp
  have hfind : [((a :: q : List α), v)].find? (·.1.isPrefixOf (a :: (q ++ s))) = some (a :: q, v) := by
    rw [List.find?_cons_of_pos]
    rw [List.isPrefixOf_iff_prefix]
    exact List.prefix_append (a :: q) s
  rw [replace, substitute, List.cons_append, substituteFrom, hfind]
  simp only [List.length_cons, Nat.add_sub_cancel]
  rw [substituteFrom_length_append]
  rfl

theorem replaceFirst_hit (p v s : List α) : replaceFirst p v (p ++ s) = v ++ s := by
  cases p with
  | nil =>
    cases s with
    | nil => simp [replaceFirst]
    | cons a s => simp [replaceFirst]
  | cons a q =>
    rw [List.cons_append, replaceFirst, if_pos]
    . rw [← List.cons_append, List.drop_left]
    . rw [List.isPrefixOf_iff_prefix]
      exact List.prefix_append (a :: q) s

omit [DecidableEq α] in
theorem not_prefix_of_notMem (h : a ∉ t) : ∀ i < t.length, ¬(a :: p) <+: (t ++ rest).drop i := by
  intro i hi hbegins
  rw [List.drop_append_of_le_length (le_of_lt hi), List.drop_eq_getElem_cons hi, List.cons_append,
    List.cons_prefix_cons] at hbegins
  rw [hbegins.1] at h
  exact h (List.getElem_mem hi)

theorem replace_of_notMem (h : a ∉ s) : replace (a :: p) v s = s := by
  have hnot := @not_prefix_of_notMem _ a p s [] h
  have hskip := replace_skip (v := v) hnot
  rw [List.append_nil] at hskip
  rw [hskip, replace, substitute_nil, List.append_nil]

theorem replaceFirst_same (p s : List α) : replaceFirst p p s = s := by
  induction s with
  | nil =>
    unfold replaceFirst
    split
    . next hp => exact hp
    . rfl
  | cons a s ih =>
    unfold replaceFirst
    split
    . next hbegins => exact List.prefix_iff_eq_append.mp (List.isPrefixOf_iff_prefix.mp hbegins)
    . rw [ih]

theorem replace_same (hp : p ≠ []) (s : List α) : replace p p s = s := by
  induction hn : s.length using Nat.strongRecOn generalizing s with
  | ind n ih =>
    by_cases hbegins : p <+: s
    . obtain ⟨rest, rfl⟩ := hbegins
      have hpos := List.length_pos_iff.mpr hp
      rw [replace_hit hp, ih rest.length (by rw [List.length_append] at hn; omega) rest rfl]
    . cases s with
      | nil => rfl
      | cons a s =>
        rw [List.length_cons] at hn
        rw [replace, substitute_of_misses (by simpa using hbegins), ← replace, ih s.length (by omega) s rfl]

end Anywhere

section Replace

variable (hp : Delimited opening closing p) {block : List α} {blocks : List (List α)}

omit [DecidableEq α] in
theorem placeholders_single (hp : Delimited opening closing p) : Placeholders opening closing [(p, v)] where
  delimited := by simpa using hp
  nodup := by simp

include hp

theorem replace_of_free (h : ¬p <:+: s) : replace p v s = s := by
  have hsame : substitute ([] ++ [(p, v)]) s = substitute [] s :=
    substitute_concat_of_free (placeholders_single hp) h
  rw [List.nil_append, substitute_nothing] at hsame
  exact hsame

theorem replace_append : replace p v (t ++ (p ++ rest)) = replace p v t ++ (v ++ replace p v rest) :=
  substitute_append_var (placeholders_single hp) (List.mem_singleton.mpr rfl)

theorem replace_intercalate (hne : blocks ≠ [])
    : replace p v (p.intercalate blocks) = v.intercalate (blocks.map (replace p v)) := by
  induction blocks with
  | nil => exact absurd rfl hne
  | cons block blocks ih =>
    cases blocks with
    | nil => simp
    | cons next blocks =>
      rw [List.intercalate_cons_cons, List.append_assoc, replace_append hp, ih (List.cons_ne_nil _ _)]
      simp only [List.map_cons, List.intercalate_cons_cons, List.append_assoc]

theorem occurrences_intercalate (hne : blocks ≠ [])
    : occurrences p (p.intercalate blocks) + 1 = (blocks.map (occurrences p)).sum + blocks.length := by
  induction blocks with
  | nil => exact absurd rfl hne
  | cons block blocks ih =>
    cases blocks with
    | nil => simp
    | cons next blocks =>
      have hrest := ih (List.cons_ne_nil _ _)
      rw [List.intercalate_cons_cons, List.append_assoc, occurrences_append hp, hrest]
      simp only [List.map_cons, List.sum_cons, List.length_cons]
      omega

theorem length_replace (s : List α)
    : (replace p v s).length + occurrences p s * p.length = s.length + occurrences p s * v.length := by
  apply parts_induction hp (P := fun s =>
    (replace p v s).length + occurrences p s * p.length = s.length + occurrences p s * v.length)
  . intro t hfree
    rw [replace_of_free hp hfree, (occurrences_eq_zero_iff hp).mpr hfree, Nat.zero_mul, Nat.zero_mul]
  . intro t rest hfree ih
    rw [replace_append hp, replace_of_free hp hfree, occurrences_append hp,
      (occurrences_eq_zero_iff hp).mpr hfree]
    simp only [List.length_append, Nat.zero_add, Nat.succ_mul]
    omega

theorem eq_of_replace_eq_self (h : replace p v s = s) (hoccurs : p <:+: s) (hlength : v.length = p.length)
    : v = p := by
  obtain ⟨t, rest, rfl, hfree⟩ := exists_first hp hoccurs
  rw [replace_append hp, replace_of_free hp hfree, List.append_cancel_left_eq] at h
  exact (List.append_inj h hlength).1

omit [DecidableEq α] hp in
theorem length_intercalate {blocks : List (List α)} (hne : blocks ≠ [])
    : (v.intercalate blocks).length + v.length = (blocks.map List.length).sum + blocks.length * v.length := by
  induction blocks with
  | nil => exact absurd rfl hne
  | cons block blocks ih =>
    cases blocks with
    | nil => simp
    | cons next blocks =>
      have hrest := ih (List.cons_ne_nil _ _)
      rw [List.intercalate_cons_cons]
      simp only [List.length_append, List.map_cons, List.sum_cons, List.length_cons, Nat.succ_mul] at hrest ⊢
      omega

omit [DecidableEq α] hp in
theorem map_eq_of_intercalate_eq {f : List α → List α}
    (hlength : ∀ block ∈ blocks, (f block).length = block.length)
    (heq : v.intercalate (blocks.map f) = v.intercalate blocks)
    : ∀ block ∈ blocks, f block = block := by
  induction blocks with
  | nil => simp
  | cons block blocks ih =>
    rw [List.forall_mem_cons] at hlength ⊢
    cases blocks with
    | nil => simpa using heq
    | cons next blocks =>
      rw [List.map_cons, List.map_cons, List.intercalate_cons_cons, List.intercalate_cons_cons, List.append_assoc,
        List.append_assoc] at heq
      obtain ⟨hblock, hrest⟩ := List.append_inj heq hlength.1
      rw [List.append_cancel_left_eq] at hrest
      exact ⟨hblock, ih hlength.2 hrest⟩

theorem intercalate_replace_iff (hne : blocks ≠ [])
    : v.intercalate (blocks.map (replace p v)) = v.intercalate blocks ↔
        v = p ∨ (blocks.map (occurrences p)).sum = 0 := by
  have hsums : ((blocks.map (replace p v)).map List.length).sum + (blocks.map (occurrences p)).sum * p.length =
      (blocks.map List.length).sum + (blocks.map (occurrences p)).sum * v.length := by
    clear hne
    induction blocks with
    | nil => simp
    | cons block blocks ih =>
      have := length_replace (v := v) hp block
      simp only [List.map_cons, List.sum_cons, Nat.add_mul] at ih ⊢
      omega
  constructor
  . intro heq
    rw [or_iff_not_imp_right]
    intro hsum
    -- The texts are of one length, so the placeholder and its value are.
    have hlength : v.length = p.length := by
      have h := congrArg List.length heq
      have hleft : (v.intercalate (blocks.map (replace p v))).length + v.length = _ :=
        length_intercalate (by simpa using hne)
      have hright := length_intercalate (v := v) hne
      rw [List.length_map] at hleft
      have hmul : (blocks.map (occurrences p)).sum * p.length = (blocks.map (occurrences p)).sum * v.length := by
        omega
      exact (Nat.eq_of_mul_eq_mul_left (Nat.pos_of_ne_zero hsum) hmul).symm
    have hsame := map_eq_of_intercalate_eq (fun block _ => by
      have := length_replace (v := v) hp block
      rw [hlength] at this
      exact Nat.add_right_cancel this) heq
    obtain ⟨n, hn, hpos⟩ : ∃ n ∈ blocks.map (occurrences p), n ≠ 0 := by
      by_contra hnone
      push Not at hnone
      exact hsum (List.sum_eq_zero hnone)
    obtain ⟨block, hblock, rfl⟩ := List.mem_map.mp hn
    have hoccurs : p <:+: block := by
      by_contra hfree
      exact hpos ((occurrences_eq_zero_iff hp).mpr hfree)
    exact eq_of_replace_eq_self hp (hsame block hblock) hoccurs hlength
  . rintro (rfl | hsum)
    . rw [funext (replace_same hp.ne_nil), List.map_id']
    . rw [List.sum_eq_zero_iff, List.forall_mem_map] at hsum
      have hsame : ∀ block ∈ blocks, replace p v block = id block :=
        fun block hblock => replace_of_free hp ((occurrences_eq_zero_iff hp).mp (hsum block hblock))
      rw [List.map_congr_left hsame, List.map_id]

end Replace

section Passes

theorem replace_substitute_iff (hvars : Placeholders opening closing (vars ++ [(p, v)])) (t : List α)
    : replace p v (substitute vars t) = substitute (vars ++ [(p, v)]) t ↔
        v = p ∨ occurrences p (substitute vars t) = occurrences p t := by
  have hp := hvars.last
  obtain ⟨blocks, hbefore, hafter, hlength⟩ := exists_blocks hvars t
  have hne : blocks ≠ [] := by
    rintro rfl
    exact Nat.succ_ne_zero _ hlength.symm
  have hcount := occurrences_intercalate hp hne
  rw [hlength, ← hbefore] at hcount
  rw [hafter]
  rw [hbefore]
  rw [replace_intercalate hp hne, intercalate_replace_iff hp hne, ← hbefore]
  apply or_congr_right
  omega

def Fresh (t : List α) (before : List (Var α)) (var : Var α) : Prop :=
  var.2 = var.1 ∨ occurrences var.1 (substitute before t) = occurrences var.1 t

@[simp]
theorem replaceEach_nil (t : List α) : replaceEach [] t = t :=
  rfl

theorem replaceEach_concat : replaceEach (vars ++ [var]) t = replace var.1 var.2 (replaceEach vars t) := by
  unfold replaceEach
  rw [List.foldl_concat]

theorem replaceEach_eq_iff (hvars : Placeholders opening closing vars) (t : List α)
    : (∀ before, before <+: vars → replaceEach before t = substitute before t) ↔ AtEach (Fresh t) vars := by
  induction vars using List.reverseRecOn with
  | nil => simp
  | append_singleton vars var ih =>
    have hsplit : (∀ before, before <+: vars ++ [var] → replaceEach before t = substitute before t) ↔
        (∀ before, before <+: vars → replaceEach before t = substitute before t) ∧
          replaceEach (vars ++ [var]) t = substitute (vars ++ [var]) t := by
      simp only [List.prefix_concat_iff, or_imp, forall_and, forall_eq, and_comm]
    rw [hsplit, atEach_concat, ih hvars.front]
    apply and_congr_right
    intro hfresh
    rw [replaceEach_concat, (ih hvars.front).mpr hfresh vars List.prefix_rfl]
    exact replace_substitute_iff hvars t

end Passes

end Substitution
