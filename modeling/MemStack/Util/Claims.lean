import Mathlib

/-!
This module contains the greedy choice among elements that each claim a set of resources.
-/

namespace Claims

variable {α κ : Type} [DecidableEq κ]

structure Choice (α κ : Type) where
  selected : List α
  deferred : List α
  claimed : Finset κ

variable (claim : α → Finset κ)

def Choice.visit (s : Choice α κ) (a : α) : Choice α κ :=
  if claim a ≠ ∅ ∧ ¬Disjoint s.claimed (claim a) then
    { s with deferred := s.deferred ++ [a] }
  else
    { s with selected := s.selected ++ [a], claimed := s.claimed ∪ claim a }

def choose (claimed : Finset κ) (l : List α) : Choice α κ :=
  l.foldl (Choice.visit claim) { selected := [], deferred := [], claimed }

variable {claim} {claimed : Finset κ} {l : List α} {a : α}

@[simp]
theorem choose_nil : choose claim claimed [] = { selected := [], deferred := [], claimed } := by
  rfl

theorem choose_concat (l : List α) (a : α)
    : choose claim claimed (l ++ [a]) = (choose claim claimed l).visit claim a := by
  unfold choose
  rw [List.foldl_concat]

theorem visit_of_disjoint {s : Choice α κ} (h : Disjoint s.claimed (claim a))
    : s.visit claim a = { s with selected := s.selected ++ [a], claimed := s.claimed ∪ claim a } := by
  unfold Choice.visit
  rw [if_neg]
  rintro ⟨-, hne⟩
  exact hne h

theorem visit_of_not_disjoint {s : Choice α κ} (h : ¬Disjoint s.claimed (claim a))
    : s.visit claim a = { s with deferred := s.deferred ++ [a] } := by
  unfold Choice.visit
  rw [if_pos]
  refine ⟨?_, h⟩
  intro hempty
  rw [hempty] at h
  exact h (Finset.disjoint_empty_right _)

theorem subset_claimed (claim : α → Finset κ) (claimed : Finset κ) (l : List α)
    : claimed ⊆ (choose claim claimed l).claimed ∧
        ∀ a ∈ (choose claim claimed l).selected, claim a ⊆ (choose claim claimed l).claimed := by
  induction l using List.reverseRecOn with
  | nil => simp
  | append_singleton l a ih =>
    rw [choose_concat]
    by_cases h : Disjoint (choose claim claimed l).claimed (claim a)
    . rw [visit_of_disjoint h]
      refine ⟨ih.1.trans Finset.subset_union_left, ?_⟩
      intro b hb
      rw [List.mem_append, List.mem_singleton] at hb
      cases hb with
      | inl hb => exact (ih.2 b hb).trans Finset.subset_union_left
      | inr hb =>
        rw [hb]
        exact Finset.subset_union_right
    . rw [visit_of_not_disjoint h]
      exact ih

theorem selected_sublist (claim : α → Finset κ) (claimed : Finset κ) (l : List α)
    : (choose claim claimed l).selected.Sublist l := by
  induction l using List.reverseRecOn with
  | nil => exact List.nil_sublist _
  | append_singleton l a ih =>
    rw [choose_concat]
    by_cases h : Disjoint (choose claim claimed l).claimed (claim a)
    . rw [visit_of_disjoint h]
      exact ih.append (List.Sublist.refl _)
    . rw [visit_of_not_disjoint h]
      exact ih.trans (List.sublist_append_left l [a])

theorem disjoint_of_selected (claim : α → Finset κ) (claimed : Finset κ) (l : List α)
    : ∀ a ∈ (choose claim claimed l).selected, Disjoint claimed (claim a) := by
  induction l using List.reverseRecOn with
  | nil => simp
  | append_singleton l a ih =>
    rw [choose_concat]
    by_cases h : Disjoint (choose claim claimed l).claimed (claim a)
    . rw [visit_of_disjoint h]
      intro b hb
      rw [List.mem_append, List.mem_singleton] at hb
      cases hb with
      | inl hb => exact ih b hb
      | inr hb =>
        rw [hb]
        exact h.mono_left (subset_claimed claim claimed l).1
    . rw [visit_of_not_disjoint h]
      exact ih

theorem pairwise_selected (claim : α → Finset κ) (claimed : Finset κ) (l : List α)
    : (choose claim claimed l).selected.Pairwise fun a b => Disjoint (claim a) (claim b) := by
  induction l using List.reverseRecOn with
  | nil => exact List.Pairwise.nil
  | append_singleton l a ih =>
    rw [choose_concat]
    by_cases h : Disjoint (choose claim claimed l).claimed (claim a)
    . rw [visit_of_disjoint h, List.pairwise_append]
      refine ⟨ih, List.pairwise_singleton _ _, ?_⟩
      intro b hb c hc
      rw [List.mem_singleton.mp hc]
      exact h.mono_left ((subset_claimed claim claimed l).2 b hb)
    . rw [visit_of_not_disjoint h]
      exact ih

theorem disjoint_of_ne {a b : α} (ha : a ∈ (choose claim claimed l).selected)
    (hb : b ∈ (choose claim claimed l).selected) (hne : a ≠ b)
    : Disjoint (claim a) (claim b) := by
  have : Std.Symm fun a b => Disjoint (claim a) (claim b) := ⟨fun a b h => h.symm⟩
  exact (pairwise_selected claim claimed l).forall ha hb hne

theorem claimed_of_selected_eq_nil (h : (choose claim claimed l).selected = [])
    : (choose claim claimed l).claimed = claimed := by
  induction l using List.reverseRecOn with
  | nil => rfl
  | append_singleton l a ih =>
    rw [choose_concat] at h ⊢
    by_cases hdisjoint : Disjoint (choose claim claimed l).claimed (claim a)
    . rw [visit_of_disjoint hdisjoint] at h
      simp at h
    . rw [visit_of_not_disjoint hdisjoint] at h ⊢
      exact ih h

theorem head?_selected (claim : α → Finset κ) (claimed : Finset κ) (l : List α)
    : (choose claim claimed l).selected.head? = l.find? fun a => decide (Disjoint claimed (claim a)) := by
  induction l using List.reverseRecOn with
  | nil => rfl
  | append_singleton l a ih =>
    rw [choose_concat, List.find?_append, ← ih]
    cases hselected : (choose claim claimed l).selected with
    | nil =>
      have hclaimed := claimed_of_selected_eq_nil hselected
      by_cases h : Disjoint claimed (claim a)
      . rw [visit_of_disjoint (by rw [hclaimed]; exact h), hselected]
        simp [h]
      . rw [visit_of_not_disjoint (by rw [hclaimed]; exact h), hselected]
        simp [h]
    | cons b rest =>
      by_cases h : Disjoint (choose claim claimed l).claimed (claim a)
      . rw [visit_of_disjoint h, hselected]
        rfl
      . rw [visit_of_not_disjoint h, hselected]
        rfl

end Claims
