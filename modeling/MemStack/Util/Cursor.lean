import Mathlib

/-!
This module contains lists that are sorted by a key, and reading them from a cursor on, batch by batch. It also
contains walks over a set of an ordered type that go from a point to the least member of the set above it.
-/

namespace Cursor

section Definitions

variable {α κ : Type} [LinearOrder κ] (key : α → κ)

def Sorted (l : List α) : Prop :=
  l.Pairwise (key · < key ·)

def after (x : κ) (l : List α) : List α :=
  l.filter (x < key ·)

def moved (x : κ) (read : List α) : κ :=
  (read.getLast?.map key).getD x

end Definitions

section Moves

variable {α κ : Type} {key : α → κ} {x : κ} {a : α} {read : List α}

@[simp]
theorem moved_nil : moved key x ([] : List α) = x :=
  rfl

@[simp]
theorem moved_concat : moved key x (read ++ [a]) = key a := by
  simp [moved]

end Moves

section Reading

variable {α κ : Type} [LinearOrder κ] {key : α → κ} {x : κ} {a : α} {l l' read rest : List α}

theorem mem_after : a ∈ after key x l ↔ a ∈ l ∧ x < key a := by
  simp [after]

theorem Sorted.after (h : Sorted key l) (x : κ) : Sorted key (after key x l) :=
  List.Pairwise.filter _ h

theorem Sorted.nodup (h : Sorted key l) : l.Nodup :=
  h.imp (by
    rintro a b hlt rfl
    exact lt_irrefl _ hlt)

theorem Sorted.eq_of_key (h : Sorted key l) {b : α} (ha : a ∈ l) (hb : b ∈ l) (hkey : key a = key b) : a = b := by
  apply List.inj_on_of_nodup_map _ ha hb hkey
  rw [List.Nodup, List.pairwise_map]
  exact h.imp ne_of_lt

theorem dropWhile_eq_after (h : Sorted key l) : l.dropWhile (key · ≤ x) = after key x l := by
  induction l with
  | nil => rfl
  | cons a l ih =>
    rcases List.pairwise_cons.mp h with ⟨hfirst, hrest⟩
    unfold after
    by_cases hle : key a ≤ x
    . rw [List.dropWhile_cons_of_pos (by simpa using hle), List.filter_cons_of_neg (by simpa using hle)]
      exact ih hrest
    . have hlt := not_le.mp hle
      rw [List.dropWhile_cons_of_neg (by simpa using hlt)]
      rw [List.filter_eq_self.mpr]
      intro b hb
      rw [decide_eq_true_eq]
      cases hb with
      | head => exact hlt
      | tail _ hb => exact hlt.trans (hfirst b hb)

theorem after_eq_of_sublist (hsub : l'.Sublist l) (hsorted : Sorted key l) (hkept : ∀ a ∈ after key x l, a ∈ l')
    : after key x l' = after key x l := by
  have hfilter : (after key x l').Sublist (after key x l) := hsub.filter _
  apply hfilter.eq_of_length_le
  apply List.Subperm.length_le
  apply List.subperm_of_subset (hsorted.after x).nodup
  intro a ha
  exact mem_after.mpr ⟨hkept a ha, (mem_after.mp ha).2⟩

theorem after_concat : after key x (l ++ [a]) = if x < key a then after key x l ++ [a] else after key x l := by
  unfold after
  rw [List.filter_append]
  split <;> simp_all

theorem after_moved (hsorted : Sorted key l) (h : after key x l = read ++ rest)
    : after key (moved key x read) l = rest := by
  cases read using List.reverseRecOn with
  | nil => exact h
  | append_singleton read a =>
    rw [moved_concat]
    have hpart : after key (key a) l = after key (key a) (after key x l) := by
      have hax : x < key a := (mem_after.mp (by rw [h]; simp : a ∈ after key x l)).2
      unfold after
      rw [List.filter_filter]
      apply List.filter_congr
      intro b _
      have : key a < key b → x < key b := hax.trans
      grind
    have hsorted' := hsorted.after x
    rw [hpart, h]
    rw [h] at hsorted'
    rcases List.pairwise_append.mp hsorted' with ⟨hread, _, hacross⟩
    unfold after
    rw [List.filter_append]
    have hnone : (read ++ [a]).filter (key a < key ·) = [] := by
      rw [List.filter_eq_nil_iff]
      intro b hb
      rw [decide_eq_true_eq, not_lt]
      rcases List.mem_append.mp hb with hb | hb
      . exact ((List.pairwise_append.mp hread).2.2 b hb a (by simp)).le
      . rw [List.mem_singleton.mp hb]
    rw [hnone, List.nil_append, List.filter_eq_self]
    intro b hb
    rw [decide_eq_true_eq]
    exact hacross a (by simp) b hb

end Reading

end Cursor

namespace Ascent

variable {α : Type} [LinearOrder α]

variable {S : Set α} {R : α → α → Prop}

end Ascent
