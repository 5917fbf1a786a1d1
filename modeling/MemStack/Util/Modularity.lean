import Mathlib

/-!
This module contains the modularity of a labelling of the nodes of a weighted graph, what a move of one node does
to it, and that it stays the same when the nodes are merged into the nodes of a coarser graph. The weights of a graph
are given as a symmetric matrix, in which a loop of a node counts twice.
-/

namespace Modularity

open Finset

variable {ι κ μ : Type} [DecidableEq κ] [DecidableEq μ]

section Defs

variable (s : Finset ι) (A : ι → ι → ℚ)

def degree (i : ι) : ℚ :=
  ∑ j ∈ s, A i j

def total : ℚ :=
  ∑ i ∈ s, degree s A i

def excess (i j : ι) : ℚ :=
  A i j / total s A - degree s A i * degree s A j / total s A ^ 2

def modularity (l : ι → κ) : ℚ :=
  ∑ i ∈ s, ∑ j ∈ s, if l i = l j then excess s A i j else 0

def gain [DecidableEq ι] (l : ι → κ) (i : ι) (c : κ) : ℚ :=
  (∑ j ∈ s.erase i, if l j = c then A i j else 0) -
    (∑ j ∈ s.erase i, if l j = c then degree s A j else 0) * degree s A i / total s A

end Defs

variable {s : Finset ι} {A : ι → ι → ℚ} {l : ι → κ} {i : ι} {c : κ}

theorem excess_symm (hsymm : ∀ i j, A i j = A j i) (i j : ι) : excess s A i j = excess s A j i := by
  unfold excess
  rw [hsymm, mul_comm (degree s A i)]

theorem modularity_congr {l' : ι → μ} (h : ∀ i ∈ s, ∀ j ∈ s, l i = l j ↔ l' i = l' j)
    : modularity s A l = modularity s A l' := by
  apply sum_congr rfl
  intro i hi
  apply sum_congr rfl
  intro j hj
  simp only [h i hi j hj]

section Move

variable [DecidableEq ι]

theorem gain_eq (htotal : total s A ≠ 0)
    : gain s A l i c = total s A * ∑ j ∈ s.erase i, if l j = c then excess s A i j else 0 := by
  unfold gain
  rw [mul_sum, sum_mul, sum_div, ← sum_sub_distrib]
  apply sum_congr rfl
  intro j _
  split
  . unfold excess
    field_simp
  . simp

theorem modularity_split (hsymm : ∀ i j, A i j = A j i) (hi : i ∈ s)
    : modularity s A l =
        excess s A i i + 2 * (∑ j ∈ s.erase i, if l j = l i then excess s A i j else 0) +
          ∑ j ∈ s.erase i, ∑ k ∈ s.erase i, if l j = l k then excess s A j k else 0 := by
  have hrow : ∀ j, (∑ k ∈ s, if l j = l k then excess s A j k else 0) =
      (if l j = l i then excess s A i j else 0) + ∑ k ∈ s.erase i, if l j = l k then excess s A j k else 0 := by
    intro j
    rw [← add_sum_erase s _ hi, excess_symm hsymm j i]
  have hself : (∑ k ∈ s.erase i, if l i = l k then excess s A i k else 0) =
      ∑ k ∈ s.erase i, if l k = l i then excess s A i k else 0 := by
    apply sum_congr rfl
    intro k _
    simp only [eq_comm]
  unfold modularity
  rw [← add_sum_erase s _ hi, hrow i, if_pos rfl, hself]
  simp only [hrow, sum_add_distrib]
  ring

theorem modularity_update (hsymm : ∀ i j, A i j = A j i) (htotal : total s A ≠ 0) (hi : i ∈ s) (l : ι → κ) (c : κ)
    : modularity s A (Function.update l i c) =
        modularity s A l + 2 * (gain s A l i c - gain s A l i (l i)) / total s A := by
  have hother : ∀ j ∈ s.erase i, Function.update l i c j = l j :=
    fun j hj => Function.update_of_ne (ne_of_mem_erase hj) c l
  have hmiddle : (∑ j ∈ s.erase i, if Function.update l i c j = Function.update l i c i then excess s A i j else 0) =
      ∑ j ∈ s.erase i, if l j = c then excess s A i j else 0 := by
    apply sum_congr rfl
    intro j hj
    rw [hother j hj, Function.update_self]
  have hrest : (∑ j ∈ s.erase i, ∑ k ∈ s.erase i,
        if Function.update l i c j = Function.update l i c k then excess s A j k else 0) =
      ∑ j ∈ s.erase i, ∑ k ∈ s.erase i, if l j = l k then excess s A j k else 0 := by
    apply sum_congr rfl
    intro j hj
    apply sum_congr rfl
    intro k hk
    rw [hother j hj, hother k hk]
  rw [modularity_split hsymm hi, modularity_split (l := l) hsymm hi, hmiddle, hrest, gain_eq htotal, gain_eq htotal]
  field_simp
  ring

end Move

section Merge

variable {ι' : Type} [DecidableEq ι'] {s' : Finset ι'} {A' : ι' → ι' → ℚ} {φ : ι → ι'}

structure Merged (s : Finset ι) (A : ι → ι → ℚ) (φ : ι → ι') (s' : Finset ι') (A' : ι' → ι' → ℚ) : Prop where
  mem : ∀ i ∈ s, φ i ∈ s'
  weight : ∀ a ∈ s', ∀ b ∈ s', A' a b = ∑ i ∈ s, ∑ j ∈ s, if φ i = a ∧ φ j = b then A i j else 0

variable (h : Merged s A φ s' A')
include h

theorem Merged.degree_eq {a : ι'} (ha : a ∈ s') : degree s' A' a = ∑ i ∈ s, if φ i = a then degree s A i else 0 := by
  unfold degree
  rw [sum_congr rfl fun b hb => h.weight a ha b hb, sum_comm]
  apply sum_congr rfl
  intro i _
  rw [sum_comm]
  split
  . next heq =>
    apply sum_congr rfl
    intro j hj
    simp only [heq, true_and]
    rw [sum_ite_eq, if_pos (h.mem j hj)]
  . next hne => simp [hne]

theorem Merged.sum_eq (f : ι' → ℚ) (g : ι → ℚ)
    (hf : ∀ a ∈ s', f a = ∑ i ∈ s, if φ i = a then g i else 0)
    : ∑ a ∈ s', f a = ∑ i ∈ s, g i := by
  rw [sum_congr rfl hf, sum_comm]
  apply sum_congr rfl
  intro i hi
  rw [sum_ite_eq, if_pos (h.mem i hi)]

theorem Merged.total_eq : total s' A' = total s A :=
  h.sum_eq _ _ fun _ ha => h.degree_eq ha

theorem Merged.excess_eq {a b : ι'} (ha : a ∈ s') (hb : b ∈ s')
    : excess s' A' a b = ∑ i ∈ s, ∑ j ∈ s, if φ i = a ∧ φ j = b then excess s A i j else 0 := by
  have hsplit : ∀ i j, (if φ i = a ∧ φ j = b then excess s A i j else 0) =
      (if φ i = a ∧ φ j = b then A i j else 0) / total s A -
        (if φ i = a then degree s A i else 0) * (if φ j = b then degree s A j else 0) / total s A ^ 2 := by
    intro i j
    by_cases hi : φ i = a
    . by_cases hj : φ j = b
      . simp [hi, hj, excess]
      . simp [hj]
    . simp [hi]
  simp only [hsplit, sum_sub_distrib, ← sum_div, ← mul_sum, ← sum_mul]
  unfold excess
  rw [h.total_eq, h.degree_eq ha, h.degree_eq hb, h.weight a ha b hb]

theorem Merged.modularity_eq (l' : ι' → κ) : modularity s' A' l' = modularity s A (l' ∘ φ) := by
  have hrow : ∀ a ∈ s', (∑ b ∈ s', if l' a = l' b then excess s' A' a b else 0) =
      ∑ i ∈ s, if φ i = a then ∑ j ∈ s, (if l' (φ i) = l' (φ j) then excess s A i j else 0) else 0 := by
    intro a ha
    rw [sum_congr rfl fun b hb => by rw [h.excess_eq ha hb]]
    have hcell : ∀ b, (if l' a = l' b then
          ∑ i ∈ s, ∑ j ∈ s, (if φ i = a ∧ φ j = b then excess s A i j else 0) else 0) =
        ∑ i ∈ s, ∑ j ∈ s, if φ j = b then
          (if φ i = a then (if l' (φ i) = l' (φ j) then excess s A i j else 0) else 0) else 0 := by
      intro b
      split
      . next hsame =>
        apply sum_congr rfl
        intro i _
        apply sum_congr rfl
        intro j _
        by_cases hi : φ i = a
        . by_cases hj : φ j = b
          . simp [hi, hj, hsame]
          . simp [hj]
        . simp [hi]
      . next hdiff =>
        rw [eq_comm]
        apply sum_eq_zero
        intro i _
        apply sum_eq_zero
        intro j _
        by_cases hi : φ i = a
        . by_cases hj : φ j = b
          . simp [hi, hj, hdiff]
          . simp [hj]
        . simp [hi]
    simp only [hcell]
    rw [sum_comm]
    apply sum_congr rfl
    intro i _
    rw [sum_comm]
    have hcol : ∀ j ∈ s, (∑ b ∈ s', if φ j = b then
          (if φ i = a then (if l' (φ i) = l' (φ j) then excess s A i j else 0) else 0) else 0) =
        if φ i = a then (if l' (φ i) = l' (φ j) then excess s A i j else 0) else 0 := by
      intro j hj
      rw [sum_ite_eq, if_pos (h.mem j hj)]
    rw [sum_congr rfl hcol]
    split
    . rfl
    . simp
  exact h.sum_eq _ _ hrow

end Merge

end Modularity
