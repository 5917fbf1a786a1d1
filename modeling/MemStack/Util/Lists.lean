import Mathlib

/-!
This module contains lemmas about replacing one element of a list, about the order of two elements, and about
histories. A history is a list that only ever grows at its end, so a property of an element may refer to all that
came before it, and never has to be revised.
-/

namespace Lists

variable {α β : Type}

theorem flatMap_set_perm {f : α → List β} {l : List α} {i : Nat} {a b : α} {extra : List β}
    (h : l[i]? = some a) (hf : (f b).Perm (extra ++ f a))
    : ((l.set i b).flatMap f).Perm (extra ++ l.flatMap f) := by
  induction l generalizing i with
  | nil => cases h
  | cons c l ih =>
    cases i with
    | zero =>
      cases h
      rw [List.set_cons_zero, List.flatMap_cons, List.flatMap_cons, ← List.append_assoc]
      apply hf.append_right
    | succ i =>
      rw [List.set_cons_succ, List.flatMap_cons, List.flatMap_cons]
      apply ((ih h).append_left _).trans
      rw [← List.append_assoc, ← List.append_assoc]
      apply List.perm_append_comm.append_right

theorem getElem?_set_of_getElem? {l : List α} {i : Nat} {a b : α} (h : l[i]? = some a) (j : Nat)
    : (l.set i b)[j]? = if j = i then some b else l[j]? := by
  have hlength := (List.getElem?_eq_some_iff.mp h).1
  rw [List.getElem?_set, if_pos hlength]
  simp only [eq_comm]

theorem mem_set_of_mem {l : List α} {i : Nat} {a b : α} (h : l[i]? = some a) : b ∈ l.set i b := by
  apply List.mem_iff_getElem?.mpr
  refine ⟨i, ?_⟩
  rw [List.getElem?_set_self]
  apply (List.getElem?_eq_some_iff.mp h).1

theorem mem_set_of_ne {l : List α} {i : Nat} {a b c : α} (h : l[i]? = some a) (hc : c ∈ l) (hne : c ≠ a)
    : c ∈ l.set i b := by
  rcases List.mem_iff_getElem?.mp hc with ⟨j, hj⟩
  apply List.mem_iff_getElem?.mpr
  refine ⟨j, ?_⟩
  rw [List.getElem?_set_ne, hj]
  intro heq
  rw [heq, hj] at h
  cases h
  exact hne rfl

theorem append_cons_inj {a : α} {u v s t : List α} (hu : a ∉ u) (hv : a ∉ v) (h : u ++ a :: s = v ++ a :: t)
    : u = v ∧ s = t := by
  rcases List.append_eq_append_iff.mp h with ⟨m, rfl, hm⟩ | ⟨m, rfl, hm⟩
  . cases m with
    | nil => simpa using hm
    | cons c m =>
      rw [List.cons_append, List.cons.injEq] at hm
      rw [hm.1] at hv
      simp at hv
  . cases m with
    | nil => simpa [eq_comm] using hm
    | cons c m =>
      rw [List.cons_append, List.cons.injEq] at hm
      rw [hm.1] at hu
      simp at hu

theorem sublist_or_sublist {a b : α} {l : List α} (ha : a ∈ l) (hb : b ∈ l)
    (hne : a ≠ b)
    : [a, b].Sublist l ∨ [b, a].Sublist l := by
  induction l with
  | nil => cases ha
  | cons c l ih =>
    rw [List.mem_cons] at ha hb
    rcases ha with rfl | ha
    . left
      apply List.Sublist.cons_cons
      rw [List.singleton_sublist]
      exact hb.resolve_left hne.symm
    . rcases hb with rfl | hb
      . right
        apply List.Sublist.cons_cons
        rw [List.singleton_sublist]
        exact ha
      . cases ih ha hb with
        | inl h => exact .inl (h.cons c)
        | inr h => exact .inr (h.cons c)

theorem not_sublist_swap {a b : α} {l : List α} (hl : l.Nodup) (hab : [a, b].Sublist l)
    : ¬ [b, a].Sublist l := by
  intro hba
  induction l with
  | nil => cases hab
  | cons c l ih =>
    rw [List.nodup_cons] at hl
    cases hab with
    | cons _ hab =>
      cases hba with
      | cons _ hba => apply ih hl.2 hab hba
      | cons_cons _ hba =>
        apply hl.1
        apply hab.subset
        simp
    | cons_cons _ hab =>
      apply hl.1
      cases hba with
      | cons _ hba =>
        apply hba.subset
        simp
      | cons_cons _ hba =>
        apply hab.subset
        simp

end Lists

namespace History

variable {α : Type}

-- Every element meets `P` together with what came before it.
def AtEach (P : List α → α → Prop) (l : List α) : Prop :=
  ∀ before a after, l = before ++ a :: after → P before a

@[simp]
theorem atEach_nil (P : List α → α → Prop) : AtEach P [] := by
  simp [AtEach]

@[simp]
theorem atEach_concat (P : List α → α → Prop) (l : List α) (a : α)
    : AtEach P (l ++ [a]) ↔ AtEach P l ∧ P l a := by
  constructor
  . intro h
    constructor
    . intro before b after hsplit
      apply h before b (after ++ [a])
      simp [hsplit]
    . apply h l a []
      rfl
  . intro h before b after hsplit
    cases after using List.reverseRecOn with
    | nil =>
      have := List.append_inj' hsplit rfl
      simp only [List.cons.injEq, and_true] at this
      rw [← this.1, ← this.2]
      apply h.2
    | append_singleton after c =>
      rw [← List.cons_append, ← List.append_assoc] at hsplit
      have := List.append_inj' hsplit rfl
      apply h.1 before b after this.1

theorem AtEach.get {P : List α → α → Prop} {l : List α} (h : AtEach P l) {n : Nat} {a : α}
    (hget : l[n]? = some a)
    : P (l.take n) a := by
  rcases List.getElem?_eq_some_iff.mp hget with ⟨hlt, rfl⟩
  apply h (l.take n) _ (l.drop (n + 1))
  rw [List.getElem_cons_drop, List.take_append_drop]

theorem AtEach.append {P : List α → α → Prop} {l l' : List α} (h : AtEach P l)
    (hnew : ∀ before after, l' = before ++ after → ∀ a ∈ l', P (l ++ before) a)
    : AtEach P (l ++ l') := by
  intro before a after hsplit
  rw [List.append_eq_append_iff] at hsplit
  rcases hsplit with ⟨middle, rfl, hafter⟩ | ⟨middle, hbefore, hafter⟩
  . apply hnew middle (a :: after) hafter
    rw [hafter]
    simp
  . cases middle with
    | nil =>
      rw [List.append_nil] at hbefore
      have := hnew [] l' rfl a (by rw [← List.nil_append l', ← hafter]; simp)
      rwa [List.append_nil, hbefore] at this
    | cons b middle =>
      rw [List.cons_append, List.cons.injEq] at hafter
      apply h before a middle
      rw [hbefore, hafter.1]

theorem AtEach.forall_mem {P : List α → α → Prop} {Q : α → Prop} {l : List α} (h : AtEach P l)
    (hstep : ∀ before a, P before a → (∀ b ∈ before, Q b) → Q a)
    : ∀ a ∈ l, Q a := by
  induction l using List.reverseRecOn with
  | nil => simp
  | append_singleton l a ih =>
    rw [atEach_concat] at h
    intro b hb
    rw [List.mem_append, List.mem_singleton] at hb
    rcases hb with hb | rfl
    . exact ih h.1 b hb
    . exact hstep l b h.2 (ih h.1)

theorem pairwise_concat {R : α → α → Prop} (htrans : ∀ a b c, R a b → R b c → R a c) {l : List α}
    {a : α} (hl : l.Pairwise R) (ha : ∀ b, l.getLast? = some b → R b a)
    : (l ++ [a]).Pairwise R := by
  have : IsTrans α R := ⟨htrans⟩
  rw [← List.isChain_iff_pairwise, List.isChain_append]
  refine ⟨hl.isChain, List.isChain_singleton a, ?_⟩
  simpa using ha

end History
